import Sixchange.Market.Audit
import Sixchange.Market.Protocol

namespace Sixchange

open PriorityList

namespace EngineEvent

def rests : EngineEvent → Option OrderRestedEvent
  | .orderRested event => some event
  | _ => none

def departs : EngineEvent → Option ℕ
  | .tradeExecuted event => if event.restingRemainingQuantity = 0 then some event.restingOrderId else none
  | .orderCancelled event => some event.orderId
  | _ => none

end EngineEvent

def restedEvents (log : List EngineEvent) : List OrderRestedEvent := log.filterMap EngineEvent.rests

def departedIds (log : List EngineEvent) : List ℕ := log.filterMap EngineEvent.departs

def restedAt (log : List EngineEvent) (sd : Side) (p : ℕ) : List ℕ :=
  ((restedEvents log).filter fun event => event.side = sd ∧ event.price = p).map OrderRestedEvent.orderId

def waiting (log : List EngineEvent) (sd : Side) (p : ℕ) : List ℕ := (restedAt log sd p).filter (· ∉ departedIds log)

section Concat

variable {log : List EngineEvent} {event : EngineEvent} {sd : Side} {p : ℕ}

theorem waiting_concat_of_none (hrests : event.rests = none) (hdeparts : event.departs = none) :
    waiting (log ++ [event]) sd p = waiting log sd p := by
  simp [waiting, restedAt, restedEvents, departedIds, hrests, hdeparts]

theorem waiting_concat_departs {id : ℕ} (hrests : event.rests = none) (hdeparts : event.departs = some id) :
    waiting (log ++ [event]) sd p = (waiting log sd p).filter (· ≠ id) := by
  simp only [waiting, restedAt, restedEvents, departedIds, List.filterMap_append, List.filterMap_cons, hrests, hdeparts,
    List.filterMap_nil, List.append_nil, List.filter_filter]
  apply List.filter_congr
  intro other _
  simp [not_or, and_comm]

theorem mem_restedAt {id : ℕ} (h : id ∈ restedAt log sd p) : id ∈ (restedEvents log).map OrderRestedEvent.orderId :=
  (List.filter_sublist.map _).subset h

theorem restedAt_concat (rested : OrderRestedEvent) :
    restedAt (log ++ [.orderRested rested]) sd p =
      if rested.side = sd ∧ rested.price = p then restedAt log sd p ++ [rested.orderId] else restedAt log sd p := by
  have hevents : restedEvents (log ++ [.orderRested rested]) = restedEvents log ++ [rested] := by
    simp [restedEvents, EngineEvent.rests]
  unfold restedAt
  rw [hevents, List.filter_append, List.map_append]
  split_ifs with hlevel
  · simp [hlevel]
  · simp [hlevel]

theorem waiting_concat_rests {rested : OrderRestedEvent} (hnew : rested.orderId ∉ departedIds log) :
    waiting (log ++ [.orderRested rested]) sd p =
      if rested.side = sd ∧ rested.price = p then waiting log sd p ++ [rested.orderId] else waiting log sd p := by
  have hdeparted : departedIds (log ++ [.orderRested rested]) = departedIds log := by
    simp [departedIds, EngineEvent.departs]
  unfold waiting
  rw [hdeparted, restedAt_concat]
  split_ifs
  · simp [hnew]
  · rfl

end Concat

namespace Auditor

structure Recorded (log : List EngineEvent) (auditor : Auditor) : Prop where
  level : ∀ sd p, (auditor.replica sd p).map Prod.fst = waiting log sd p
  accepted : ∀ id ∈ (restedEvents log).map OrderRestedEvent.orderId, id ∈ acceptedIds log
  departed : ∀ id ∈ departedIds log, id ∈ (restedEvents log).map OrderRestedEvent.orderId
  once : ((restedEvents log).map OrderRestedEvent.orderId).Nodup
  taker : ∀ taker, auditor.taker = some taker →
    taker.orderId ∈ acceptedIds log ∧ taker.orderId ∉ (restedEvents log).map OrderRestedEvent.orderId

theorem nobody {P : Taker → Prop} : ∀ taker, (none : Option Taker) = some taker → P taker := by
  intro taker h
  cases h

namespace Recorded

variable {log : List EngineEvent} {replica : Replica} {taker : Option Taker}

theorem start : Recorded [] .start :=
  ⟨fun _ _ => rfl, List.forall_mem_nil _, List.forall_mem_nil _, List.nodup_nil, nobody⟩

theorem mem_rested (h : Recorded log ⟨replica, taker⟩) {sd : Side} {p : ℕ} {entry : ℕ × ℕ}
    (hentry : entry ∈ replica sd p) : entry.1 ∈ (restedEvents log).map OrderRestedEvent.orderId := by
  have hmem : entry.1 ∈ waiting log sd p := by
    rw [← h.level]
    exact List.mem_map_of_mem hentry
  exact mem_restedAt (List.mem_filter.mp hmem).1

theorem delete_level (h : Recorded log ⟨replica, taker⟩) (id : ℕ) (sd : Side) (p : ℕ) :
    (replica.delete id sd p).map Prod.fst = (waiting log sd p).filter (· ≠ id) := by
  rw [← h.level, Replica.delete, List.filter_map]
  rfl

theorem setRemaining_level (h : Recorded log ⟨replica, taker⟩) (id remaining : ℕ) (sd : Side) (p : ℕ) :
    (replica.setRemaining id remaining sd p).map Prod.fst = waiting log sd p := by
  rw [← h.level, Replica.setRemaining, List.map_map]
  apply List.map_congr_left
  intro entry _
  simp only [Function.comp_apply]
  split_ifs with he
  · exact he.symm
  · rfl

theorem keep (h : Recorded log ⟨replica, taker⟩) {event : EngineEvent} {replica' : Replica} {taker' : Option Taker}
    (hrests : event.rests = none) (hdeparts : event.departs = none)
    (hlevel : ∀ sd p, (replica' sd p).map Prod.fst = waiting log sd p)
    (htaker : ∀ taker, taker' = some taker → taker.orderId ∈ acceptedIds (log ++ [event]) ∧
      taker.orderId ∉ (restedEvents log).map OrderRestedEvent.orderId) :
    Recorded (log ++ [event]) ⟨replica', taker'⟩ := by
  have hrested : restedEvents (log ++ [event]) = restedEvents log := by simp [restedEvents, hrests]
  have hdeparted : departedIds (log ++ [event]) = departedIds log := by simp [departedIds, hdeparts]
  refine ⟨fun sd p => ?_, fun id hid => ?_, ?_, ?_, ?_⟩
  · rw [waiting_concat_of_none hrests hdeparts]
    exact hlevel sd p
  · rw [hrested] at hid
    rw [acceptedIds, List.filterMap_append]
    exact List.mem_append_left _ (h.accepted id hid)
  · rw [hrested, hdeparted]
    exact h.departed
  · rw [hrested]
    exact h.once
  · rw [hrested]
    exact htaker

theorem leave (h : Recorded log ⟨replica, taker⟩) {event : EngineEvent} {id : ℕ} {taker' : Option Taker}
    (hrests : event.rests = none) (hdeparts : event.departs = some id)
    (hid : id ∈ (restedEvents log).map OrderRestedEvent.orderId)
    (htaker : ∀ taker, taker' = some taker → taker.orderId ∈ acceptedIds (log ++ [event]) ∧
      taker.orderId ∉ (restedEvents log).map OrderRestedEvent.orderId) :
    Recorded (log ++ [event]) ⟨replica.delete id, taker'⟩ := by
  have hrested : restedEvents (log ++ [event]) = restedEvents log := by simp [restedEvents, hrests]
  have hdeparted : departedIds (log ++ [event]) = departedIds log ++ [id] := by simp [departedIds, hdeparts]
  refine ⟨fun sd p => ?_, fun other hother => ?_, fun other hother => ?_, ?_, ?_⟩
  · rw [waiting_concat_departs hrests hdeparts]
    exact h.delete_level id sd p
  · rw [hrested] at hother
    rw [acceptedIds, List.filterMap_append]
    exact List.mem_append_left _ (h.accepted other hother)
  · rw [hdeparted] at hother
    rw [hrested]
    rcases List.mem_append.mp hother with hother | hother
    · exact h.departed other hother
    · rwa [List.mem_singleton.mp hother]
  · rw [hrested]
    exact h.once
  · rw [hrested]
    exact htaker

theorem rest (h : Recorded log ⟨replica, taker⟩) {event : OrderRestedEvent}
    (haccepted : event.orderId ∈ acceptedIds log)
    (hnew : event.orderId ∉ (restedEvents log).map OrderRestedEvent.orderId) :
    Recorded (log ++ [.orderRested event])
      ⟨replica.append event.side event.price (event.orderId, event.remainingQuantity), none⟩ := by
  have hrested : restedEvents (log ++ [.orderRested event]) = restedEvents log ++ [event] := by
    simp [restedEvents, EngineEvent.rests]
  have hdeparted : departedIds (log ++ [.orderRested event]) = departedIds log := by
    simp [departedIds, EngineEvent.departs]
  have hids : acceptedIds (log ++ [.orderRested event]) = acceptedIds log := by
    simp [acceptedIds, EngineEvent.acceptedId]
  refine ⟨fun sd p => ?_, fun id hid => ?_, fun id hid => ?_, ?_, nobody⟩
  · rw [waiting_concat_rests fun hdeparted => hnew (h.departed _ hdeparted)]
    dsimp only [Replica.append]
    rw [← h.level]
    by_cases hlevel : sd = event.side ∧ p = event.price
    · rw [if_pos hlevel, if_pos ⟨hlevel.1.symm, hlevel.2.symm⟩, List.map_append]
      rfl
    · rw [if_neg hlevel, if_neg fun hsame => hlevel ⟨hsame.1.symm, hsame.2.symm⟩]
  · rw [hrested, List.map_append] at hid
    rw [hids]
    rcases List.mem_append.mp hid with hid | hid
    · exact h.accepted id hid
    · rwa [List.mem_singleton.mp hid]
  · rw [hdeparted] at hid
    rw [hrested, List.map_append]
    exact List.mem_append_left _ (h.departed id hid)
  · rw [hrested, List.map_append]
    exact h.once.append (List.nodup_singleton _) (List.disjoint_singleton.mpr hnew)

theorem passes {auditor auditor' : Auditor} (h : Recorded log auditor) {event : EngineEvent}
    (hpasses : Passes auditor event auditor') (hd : (acceptedIds (log ++ [event])).Nodup) :
    Recorded (log ++ [event]) auditor' := by
  have hmore : ∀ id ∈ acceptedIds log, id ∈ acceptedIds (log ++ [event]) := by
    intro id hid
    rw [acceptedIds, List.filterMap_append]
    exact List.mem_append_left _ hid
  cases hpasses with
  | @accepted replica event =>
    refine h.keep rfl rfl h.level fun taker htaker => ?_
    have hids : acceptedIds (log ++ [.orderAccepted event]) = acceptedIds log ++ [event.orderId] := by
      simp [acceptedIds, EngineEvent.acceptedId]
    obtain rfl := Option.some.inj htaker
    rw [hids] at hd ⊢
    -- an id that was accepted only now cannot have rested before
    refine ⟨List.mem_append_right _ (List.mem_singleton_self _), fun hrested => ?_⟩
    exact (List.nodup_append'.mp hd).2.2 (h.accepted _ hrested) (List.mem_singleton_self _)
  | @traded replica taker event quantity behind htrade =>
    have htaker : ∀ taker', taker.after event.quantity = some taker' → taker'.orderId ∈ acceptedIds
        (log ++ [.tradeExecuted event]) ∧ taker'.orderId ∉ (restedEvents log).map OrderRestedEvent.orderId := by
      intro taker' hafter
      have hsame : taker'.orderId = taker.orderId := by
        rw [Taker.after] at hafter
        split_ifs at hafter
        rw [← Option.some.inj hafter]
      obtain ⟨haccepted, hnew⟩ := h.taker taker rfl
      rw [hsame]
      exact ⟨hmore _ haccepted, hnew⟩
    rw [Replica.apply]
    split_ifs with hfilled
    · have hentry := h.mem_rested (htrade.front ▸ List.mem_cons_self)
      exact h.leave rfl (if_pos hfilled) hentry htaker
    · exact h.keep rfl (if_neg hfilled) (h.setRemaining_level _ _) htaker
  | @rested replica taker event hrests =>
    obtain ⟨haccepted, hnew⟩ := h.taker taker rfl
    rw [← hrests.order.1] at haccepted hnew
    exact h.rest haccepted hnew
  | cancelled hentry => exact h.leave rfl rfl (h.mem_rested hentry) nobody
  | rejected => exact h.keep rfl rfl h.level nobody

end Recorded

theorem recorded_of_passes {log : List EngineEvent} {auditor : Auditor} (h : Trail Passes .start log auditor)
    (hd : (acceptedIds log).Nodup) : Recorded log auditor := by
  let I (log : List EngineEvent) (auditor : Auditor) : Prop := (acceptedIds log).Nodup → Recorded log auditor
  have hstep : ∀ log auditor event auditor', I log auditor → Passes auditor event auditor' →
      I (log ++ [event]) auditor' := by
    intro log auditor event auditor' hrecorded hpasses hd
    have hbefore : (acceptedIds log).Nodup := hd.sublist ((List.sublist_append_left log [event]).filterMap _)
    exact (hrecorded hbefore).passes hpasses hd
  have hstart : I [] .start := fun _ => .start
  exact h.records hstep hstart hd

theorem sublist_waiting {log : List EngineEvent} {events : List OrderRestedEvent} {sd : Side} {p : ℕ}
    (hrested : events.Sublist (restedEvents log))
    (hevents : ∀ event ∈ events, (event.side = sd ∧ event.price = p) ∧ event.orderId ∉ departedIds log) :
    (events.map OrderRestedEvent.orderId).Sublist (waiting log sd p) := by
  have hlevel := hrested.filter fun event => event.side = sd ∧ event.price = p
  rw [List.filter_eq_self.mpr fun event hevent => decide_eq_true (hevents event hevent).1] at hlevel
  have hstays := (hlevel.map OrderRestedEvent.orderId).filter (· ∉ departedIds log)
  have hkept : (events.map OrderRestedEvent.orderId).filter (· ∉ departedIds log) =
      events.map OrderRestedEvent.orderId := by
    apply List.filter_eq_self.mpr
    intro id hid
    obtain ⟨event, hevent, rfl⟩ := List.mem_map.mp hid
    exact decide_eq_true (hevents event hevent).2
  rwa [hkept] at hstays

theorem not_behind_head {a b : ℕ} {l : List ℕ} (hd : (b :: l).Nodup) : ¬ [a, b].Sublist (b :: l) := by
  intro h
  have hbehind : [b].Sublist l := by
    cases h with
    | cons _ h => exact (List.sublist_cons_self a [b]).trans h
    | cons_cons _ h => exact h
  exact (List.nodup_cons.mp hd).1 (List.singleton_sublist.mp hbehind)

theorem not_passed_over {before : List EngineEvent} {auditor auditor' : Auditor} {trade : TradeExecutedEvent}
    (h : Recorded before auditor) (htrade : Passes auditor (.tradeExecuted trade) auditor') {first : OrderRestedEvent}
    (hfirst : .orderRested first ∈ before) (hside : first.side = trade.aggressingSide.opposite)
    (hahead : first.side.better first.price trade.price ∨ first.price = trade.price ∧
      ∃ second : OrderRestedEvent, second.orderId = trade.restingOrderId ∧
        [.orderRested first, .orderRested second].Sublist before) :
    first.orderId ∈ departedIds before := by
  by_contra hstays
  cases htrade with
  | @traded replica taker _ quantity behind htrade =>
    rw [htrade.order.2] at hside
    have hlevel : (replica first.side first.price).map Prod.fst = _ := h.level first.side first.price
    rcases hahead with hbetter | ⟨hprice, second, hsecond, hsublist⟩
    · have hrested : [first].Sublist (restedEvents before) :=
        List.singleton_sublist.mpr (List.mem_filterMap.mpr ⟨_, hfirst, rfl⟩)
      have hwaiting : [first.orderId].Sublist (waiting before first.side first.price) :=
        sublist_waiting hrested (by simp [hstays])
      rw [hside] at hbetter hwaiting hlevel
      rw [← hlevel, htrade.best _ hbetter] at hwaiting
      cases hwaiting
    · have hrested : [first, second].Sublist (restedEvents before) := hsublist.filterMap EngineEvent.rests
      have hfront : waiting before first.side first.price = second.orderId :: behind.map Prod.fst := by
        rw [← hlevel, hside, hprice, htrade.front, hsecond]
        rfl
      obtain ⟨hsecondAt, hsecondStays⟩ := List.mem_filter.mp (hfront ▸ List.mem_cons_self)
      obtain ⟨event, hevent, hid⟩ := List.mem_map.mp hsecondAt
      obtain ⟨hevent, hat⟩ := List.mem_filter.mp hevent
      -- an order rests once, so that it is at this level that the second one came to rest
      obtain rfl := List.inj_on_of_nodup_map h.once hevent (hrested.subset (by simp)) hid
      have hboth : [first.orderId, event.orderId].Sublist (waiting before first.side first.price) := by
        apply sublist_waiting hrested
        rw [List.forall_mem_cons, List.forall_mem_singleton]
        exact ⟨⟨⟨rfl, rfl⟩, hstays⟩, of_decide_eq_true hat, of_decide_eq_true hsecondStays⟩
      have hnodup : (waiting before first.side first.price).Nodup :=
        (h.once.sublist (List.filter_sublist.map _)).sublist List.filter_sublist
      rw [hfront] at hboth hnodup
      exact not_behind_head hnodup hboth

end Auditor

end Sixchange

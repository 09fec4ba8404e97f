import Sixchange.Market.Steps
import Sixchange.Theory.Account

namespace Sixchange

open Account PriorityList
open scoped List

def EngineEvent.postings (id : ℕ) : EngineEvent → List Posting
  | .orderAccepted event => if event.orderId = id then [.opening event.quantity] else []
  | .tradeExecuted event =>
    (if event.aggressingOrderId = id then [.draw event.quantity event.aggressingRemainingQuantity] else []) ++
      if event.restingOrderId = id then [.draw event.quantity event.restingRemainingQuantity] else []
  | .orderRested event => if event.orderId = id then [.hold event.remainingQuantity] else []
  | .orderCancelled event => if event.orderId = id then [.close event.cancelledQuantity] else []
  | _ => []

def postings (id : ℕ) (events : List EngineEvent) : List Posting := events.flatMap (EngineEvent.postings id)

theorem postings_cons (id : ℕ) (event : EngineEvent) (events : List EngineEvent) :
    postings id (event :: events) = event.postings id ++ postings id events := List.flatMap_cons

theorem postings_append (id : ℕ) (events events' : List EngineEvent) :
    postings id (events ++ events') = postings id events ++ postings id events' := List.flatMap_append

def openQuantity (id : ℕ) (l : List RestingOrder) : ℕ :=
  ((l.filter (·.orderId = id)).map RestingOrder.remainingQuantity).sum

section RemainingOf

variable {id : ℕ} {l l' : List RestingOrder}

theorem openQuantity_cons (r : RestingOrder) : openQuantity id (r :: l) =
    if r.orderId = id then r.remainingQuantity + openQuantity id l else openQuantity id l := by
  unfold openQuantity
  split_ifs with h
  · rw [List.filter_cons_of_pos (by simpa using h), List.map_cons, List.sum_cons]
  · rw [List.filter_cons_of_neg (by simpa using h)]

theorem openQuantity_append : openQuantity id (l ++ l') = openQuantity id l + openQuantity id l' := by
  unfold openQuantity
  rw [List.filter_append, List.map_append, List.sum_append]

theorem openQuantity_perm (h : l ~ l') : openQuantity id l = openQuantity id l' :=
  ((h.filter _).map _).sum_eq

theorem openQuantity_of_ne (h : ∀ r ∈ l, r.orderId ≠ id) : openQuantity id l = 0 := by
  have hnone : l.filter (·.orderId = id) = [] := by
    apply List.filter_eq_nil_iff.mpr
    intro r hr he
    exact h r hr (of_decide_eq_true he)
  unfold openQuantity
  rw [hnone]
  rfl

theorem openQuantity_eq_zero (h : id ∉ l.map RestingOrder.orderId) : openQuantity id l = 0 := by
  apply openQuantity_of_ne
  intro r hr he
  exact h (he ▸ List.mem_map_of_mem hr)

theorem openQuantity_filter_ne {orderId : ℕ} (hne : id ≠ orderId) :
    openQuantity id (l.filter (·.orderId ≠ orderId)) = openQuantity id l := by
  unfold openQuantity
  rw [List.filter_filter]
  congr 2
  apply List.filter_congr
  intro r _
  by_cases hrid : r.orderId = id
  · simp [hrid, hne]
  · simp [hrid]

end RemainingOf

section Fills

variable (crosses : ℕ → Bool) (command : NewOrderCommand) {orderId : ℕ}

theorem mem_tradeEvents {trades : ℕ} {fills : List Fill} {event : EngineEvent}
    (h : event ∈ tradeEvents command orderId trades fills) :
    ∃ tradeId, ∃ fill ∈ fills, event = traded command orderId tradeId fill := by
  induction fills generalizing trades with
  | nil => cases h
  | cons fill fills ih =>
    rw [tradeEvents] at h
    rcases List.mem_cons.mp h with rfl | h
    · exact ⟨_, fill, List.mem_cons_self, rfl⟩
    · obtain ⟨tradeId, fill', hfill, he⟩ := ih h
      exact ⟨tradeId, fill', List.mem_cons_of_mem fill hfill, he⟩

theorem postings_traded (id tradeId : ℕ) (fill : Fill) : (traded command orderId tradeId fill).postings id =
    (if orderId = id then [.draw fill.quantity fill.aggressingRemaining] else []) ++
      if fill.resting.orderId = id then [.draw fill.quantity fill.restingRemaining] else [] := rfl

theorem posted_aggressor {l : List RestingOrder} (hpos : ∀ r ∈ l, 0 < r.remainingQuantity)
    (hne : ∀ r ∈ l, r.orderId ≠ orderId) (quantity trades : ℕ) :
    Posted (some quantity) (postings orderId (tradeEvents command orderId trades (sweep crosses quantity l).fills))
      (some (sweep crosses quantity l).unfilled) := by
  induction l generalizing quantity trades with
  | nil => exact .nil
  | cons r rs ih =>
    rw [List.forall_mem_cons] at hpos hne
    rw [sweep]
    split_ifs with hgo hlt
    · rw [tradeEvents, postings_cons, postings_traded, if_pos rfl, if_neg hne.1]
      exact .cons (.draw_of_add hgo.1 (Nat.add_zero quantity)) .nil
    · rw [tradeEvents, postings_cons, postings_traded, if_pos rfl, if_neg hne.1]
      apply Posted.cons
      · apply Step.draw_of_add hpos.1
        exact Nat.add_sub_of_le (Nat.le_of_not_lt hlt)
      · exact ih hpos.2 hne.2 _ _
    · exact .nil

theorem posted_resting {id : ℕ} (hid : orderId ≠ id) {l : List RestingOrder}
    (hpos : ∀ r ∈ l, 0 < r.remainingQuantity) (hd : (l.map RestingOrder.orderId).Nodup) (quantity trades : ℕ) :
    Posted (some (openQuantity id l))
      (postings id (tradeEvents command orderId trades (sweep crosses quantity l).fills))
      (some (openQuantity id (sweep crosses quantity l).resting)) := by
  induction l generalizing quantity trades with
  | nil => exact .nil
  | cons r rs ih =>
    rw [List.forall_mem_cons] at hpos
    obtain ⟨hr, hrs⟩ := List.nodup_cons.mp hd
    rw [sweep]
    split_ifs with hgo hlt
    · rw [tradeEvents, postings_cons, postings_traded, if_neg hid, List.nil_append, openQuantity_cons,
        openQuantity_cons]
      by_cases he : r.orderId = id
      · subst he
        rw [if_pos rfl, if_pos rfl, if_pos rfl, openQuantity_eq_zero hr]
        apply Posted.single
        exact .draw_of_add hgo.1 (by dsimp only; omega)
      · rw [if_neg he, if_neg he, if_neg he]
        exact .nil
    · rw [tradeEvents, postings_cons, postings_traded, if_neg hid, List.nil_append, openQuantity_cons]
      by_cases he : r.orderId = id
      · subst he
        have hrest := ih hpos.2 hrs (quantity - r.remainingQuantity) (trades + 1)
        rw [if_pos rfl, if_pos rfl, openQuantity_eq_zero hr]
        rw [openQuantity_eq_zero hr] at hrest
        exact .cons (.draw hpos.1) hrest
      · rw [if_neg he, if_neg he]
        exact ih hpos.2 hrs _ _
    · exact .nil

end Fills

namespace Market

variable {symbolId : ℕ} {config : OrderBookConfig} {market : Market}

def account (market : Market) (id : ℕ) : Option ℕ :=
  if 1 ≤ id ∧ id ≤ market.accepted then some (openQuantity id market.resting) else none

theorem openQuantity_resting (market : Market) (id : ℕ) (sd : Side) : openQuantity id market.resting =
    openQuantity id (market.book sd) + openQuantity id (market.book sd.opposite) := by
  unfold resting
  rw [openQuantity_append]
  cases sd
  · rfl
  · exact Nat.add_comm _ _

theorem Numbered.ids_nodup (hn : market.Numbered) (sd : Side) :
    ((market.book sd).map RestingOrder.orderId).Nodup ∧
      ((market.book sd.opposite).map RestingOrder.orderId).Nodup ∧
      ∀ id ∈ (market.book sd).map RestingOrder.orderId,
        id ∉ (market.book sd.opposite).map RestingOrder.orderId := by
  obtain ⟨hside, hopposite, hdisjoint⟩ := List.nodup_append'.mp ((ids_perm market sd).nodup_iff.mp hn.nodup)
  exact ⟨hside, hopposite, fun id hid hid' => hdisjoint hid hid'⟩

theorem posted_fills (hs : market.Sound config) (hn : market.Numbered) (command : NewOrderCommand) {id : ℕ}
    (hid : market.nextId ≠ id) :
    Posted (some (openQuantity id market.resting))
      (postings id (tradeEvents command market.nextId market.trades (market.swept command).fills))
      (some (openQuantity id (market.book command.side) + openQuantity id (market.swept command).resting)) := by
  obtain ⟨-, hopposite, hdisjoint⟩ := hn.ids_nodup command.side
  have hposted := posted_resting (command.side.opposite.crosses command.price) command hid
    (hs.quantity command.side.opposite) hopposite command.quantity market.trades
  rw [openQuantity_resting market id command.side]
  -- an id of the order's own side takes no part in the trades
  by_cases hm : id ∈ (market.book command.side).map RestingOrder.orderId
  · rw [openQuantity_eq_zero (hdisjoint id hm)] at hposted ⊢
    obtain ⟨hnone, hzero⟩ := hposted.settled
    unfold swept
    rw [hnone, Option.some.inj hzero]
    exact .nil
  · rw [openQuantity_eq_zero hm, Nat.zero_add, Nat.zero_add]
    exact hposted

theorem postings_fills_of_not_mem (hs : market.Sound config) (hn : market.Numbered) (command : NewOrderCommand)
    {id : ℕ} (hid : market.nextId ≠ id) (hm : id ∉ market.ids) :
    postings id (tradeEvents command market.nextId market.trades (market.swept command).fills) = [] := by
  have hposted := posted_fills hs hn command hid
  rw [openQuantity_eq_zero hm] at hposted
  exact hposted.settled.1

theorem openQuantity_accept (command : NewOrderCommand) (id : ℕ) :
    openQuantity id (market.accept command).resting =
      (if market.nextId = id then (market.swept command).unfilled else 0) +
        (openQuantity id (market.book command.side) + openQuantity id (market.swept command).resting) := by
  rw [openQuantity_resting _ id command.side, accept_opposite, accept_side]
  split_ifs with hleft he he
  · rw [openQuantity_perm (enqueue_perm _ _), openQuantity_cons, ← Nat.add_assoc]
    exact congrArg (· + _) (if_pos he)
  · rw [openQuantity_perm (enqueue_perm _ _), openQuantity_cons, Nat.zero_add]
    exact congrArg (· + _) (if_neg he)
  · rw [Nat.eq_zero_of_not_pos hleft, Nat.zero_add]
  · rw [Nat.zero_add]

theorem postings_acceptEvents (command : NewOrderCommand) (id : ℕ) :
    postings id (market.acceptEvents command) =
      (if market.nextId = id then [.opening command.quantity] else []) ++
        (postings id (tradeEvents command market.nextId market.trades (market.swept command).fills) ++
          if 0 < (market.swept command).unfilled ∧ market.nextId = id then
            [.hold (market.swept command).unfilled]
          else []) := by
  unfold acceptEvents
  rw [postings_cons, postings_append]
  congr 2
  split_ifs with hleft h h
  · rw [postings_cons]
    exact (List.append_nil _).trans (if_pos h.2)
  · rw [postings_cons]
    exact (List.append_nil _).trans (if_neg (fun he => h ⟨hleft, he⟩))
  · exact absurd h.1 hleft
  · rfl

theorem posted_accept_self (hs : market.Sound config) (hfresh : market.nextId ∉ market.ids)
    {command : NewOrderCommand} (hpos : command.quantity ≠ 0) :
    Posted none (postings market.nextId (market.acceptEvents command))
      (some (openQuantity market.nextId (market.accept command).resting)) := by
  have hne : ∀ sd, ∀ r ∈ market.book sd, r.orderId ≠ market.nextId := fun sd r hr he =>
    hfresh (mem_ids.mpr ⟨sd, r, hr, he⟩)
  have hopposite : openQuantity market.nextId (market.swept command).resting = 0 := by
    apply openQuantity_of_ne
    intro r hr
    obtain ⟨r', hr', he⟩ := mem_swept hr
    rw [← terms_orderId he]
    exact hne _ r' hr'
  rw [postings_acceptEvents, openQuantity_accept, if_pos rfl, if_pos rfl, openQuantity_of_ne (hne command.side),
    hopposite, Nat.add_zero]
  apply Posted.cons
  · exact .opening (Nat.pos_of_ne_zero hpos)
  · apply (posted_aggressor _ command (hs.quantity _) (hne _) command.quantity market.trades).append
    by_cases hleft : 0 < (market.swept command).unfilled
    · rw [if_pos ⟨hleft, rfl⟩]
      exact .single (.hold hleft)
    · rw [if_neg (fun h => hleft h.1)]
      exact .nil

theorem acceptEvents_other (command : NewOrderCommand) {id : ℕ} (hid : market.nextId ≠ id) :
    postings id (market.acceptEvents command) =
        postings id (tradeEvents command market.nextId market.trades (market.swept command).fills) ∧
      openQuantity id (market.accept command).resting =
        openQuantity id (market.book command.side) + openQuantity id (market.swept command).resting := by
  have hlast : ¬ (0 < (market.swept command).unfilled ∧ market.nextId = id) := fun h => hid h.2
  rw [postings_acceptEvents, openQuantity_accept, if_neg hid, if_neg hid, if_neg hlast, List.nil_append,
    List.append_nil, Nat.zero_add]
  exact ⟨rfl, rfl⟩

theorem posted_accept (hs : market.Sound config) (hn : market.Numbered) {command : NewOrderCommand}
    (hpos : command.quantity ≠ 0) (hlt : market.accepted + 1 < word) (id : ℕ) :
    Posted (market.account id) (postings id (market.acceptEvents command))
      ((market.accept command).account id) := by
  have hnext := nextId_small hlt
  have haccepted : (market.accept command).accepted = market.accepted + 1 := rfl
  unfold account
  rw [haccepted]
  by_cases hid : market.nextId = id
  · have hbefore : ¬ (1 ≤ id ∧ id ≤ market.accepted) := by omega
    have hafter : 1 ≤ id ∧ id ≤ market.accepted + 1 := by omega
    rw [if_neg hbefore, if_pos hafter]
    subst hid
    exact posted_accept_self hs (hn.nextId_fresh (Nat.lt_of_succ_lt hlt)) hpos
  · obtain ⟨hpostings, hopen⟩ := acceptEvents_other command hid
    rw [hpostings, hopen]
    by_cases hrange : 1 ≤ id ∧ id ≤ market.accepted
    · rw [if_pos hrange, if_pos (by omega)]
      exact posted_fills hs hn command hid
    · rw [if_neg hrange, if_neg (by omega), postings_fills_of_not_mem hs hn command hid]
      · exact .nil
      · intro hm
        obtain ⟨sd, r, hr, rfl⟩ := mem_ids.mp hm
        exact hrange (hn.range sd r hr)

theorem Numbered.openQuantity_eq (hn : market.Numbered) {order : RestingOrder} (hm : order ∈ market.resting) :
    openQuantity order.orderId market.resting = order.remainingQuantity := by
  obtain ⟨as, bs, hl⟩ := List.append_of_mem hm
  have hperm : market.resting ~ order :: (as ++ bs) := hl ▸ List.perm_middle
  have hd := (hperm.map RestingOrder.orderId).nodup_iff.mp hn.nodup
  rw [openQuantity_perm hperm, openQuantity_cons, if_pos rfl,
    openQuantity_eq_zero (List.nodup_cons.mp hd).1, Nat.add_zero]

theorem Numbered.openQuantity_eq_zero (hn : market.Numbered) {id : ℕ} (hid : ¬ (1 ≤ id ∧ id ≤ market.accepted)) :
    openQuantity id market.resting = 0 := by
  apply Sixchange.openQuantity_eq_zero
  intro hm
  obtain ⟨sd, r, hr, rfl⟩ := mem_ids.mp hm
  exact hid (hn.range sd r hr)

theorem posted_remove (hs : market.Sound config) (hn : market.Numbered) {orderId : ℕ} {order : RestingOrder}
    (hlookup : market.lookup orderId = some order) (seq id : ℕ) :
    Posted (market.account id) (postings id [withdrawn seq symbolId order])
      ((market.remove orderId).account id) := by
  have hm := List.mem_of_find?_eq_some hlookup
  obtain rfl : order.orderId = orderId := by simpa using List.find?_some hlookup
  have hresting : (market.remove order.orderId).resting = market.resting.filter (·.orderId ≠ order.orderId) :=
    (List.filter_append _ _).symm
  have haccepted : (market.remove order.orderId).accepted = market.accepted := rfl
  have hposting : postings id [withdrawn seq symbolId order] =
      if order.orderId = id then [.close order.remainingQuantity] else [] :=
    (postings_cons id _ []).trans (List.append_nil _)
  unfold account
  rw [hposting, hresting, haccepted]
  by_cases he : order.orderId = id
  · subst he
    obtain ⟨sd, hsd⟩ : ∃ sd, order ∈ market.book sd :=
      (List.mem_append.mp hm).elim (fun h => ⟨_, h⟩) (fun h => ⟨_, h⟩)
    have hrange := hn.range sd order hsd
    rw [if_pos rfl, if_pos hrange, if_pos hrange, hn.openQuantity_eq hm, openQuantity_of_ne]
    · exact .single (.close (hs.quantity sd order hsd))
    · intro r hr
      exact of_decide_eq_true (List.mem_filter.mp hr).2
  · rw [if_neg he, openQuantity_filter_ne (Ne.symm he)]
    exact .nil

theorem posted_process (hs : market.Sound config) (hn : market.Numbered) (c : EngineCommand)
    (hlt : (market.process symbolId config c).1.accepted < word) (id : ℕ) :
    Posted (market.account id) (postings id (market.process symbolId config c).2)
      ((market.process symbolId config c).1.account id) := by
  rcases process_cases symbolId config market c with ⟨reason, he⟩ | ⟨command, -, hrefusal, he⟩ |
    ⟨command, order, -, -, hlookup, -, -, he⟩ <;> rw [he] at hlt ⊢
  · exact .nil
  · exact posted_accept hs hn (admitError_none.mp (refusal_none.mp hrefusal).2.2).2.1 hlt id
  · exact posted_remove hs hn hlookup command.seq id

theorem traded_ne (hn : market.Numbered) (c : EngineCommand) (hlt : market.accepted < word)
    {event : TradeExecutedEvent} (h : .tradeExecuted event ∈ (market.process symbolId config c).2) :
    event.aggressingOrderId ≠ event.restingOrderId := by
  rcases process_cases symbolId config market c with ⟨reason, he⟩ | ⟨command, -, -, he⟩ |
    ⟨command, order, -, -, -, -, -, he⟩ <;> rw [he] at h
  · cases List.mem_singleton.mp h
  · unfold acceptEvents at h
    rcases List.mem_cons.mp h with h | h
    · cases h
    · rcases List.mem_append.mp h with h | h
      · obtain ⟨tradeId, fill, hfill, he⟩ := mem_tradeEvents command h
        obtain rfl := EngineEvent.tradeExecuted.inj he
        intro hid
        exact hn.nextId_fresh hlt (mem_ids.mpr ⟨_, fill.resting, mem_fills hfill, hid.symm⟩)
      · split_ifs at h
        · cases List.mem_singleton.mp h
        · cases h
  · cases List.mem_singleton.mp h

end Market

end Sixchange

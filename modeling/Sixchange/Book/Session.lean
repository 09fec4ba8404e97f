import Sixchange.Book.Cancellation
import Sixchange.Book.Walks
import Sixchange.Market.Replica
import Sixchange.Theory.Transducer

namespace Sixchange

open OrderBook PriorityList
open scoped List

inductive BookCall
  | admitOrder (command : NewOrderCommand) (orderId : ℕ)
  | execute (order : Slot)
  | cancel (command : CancelOrderCommand)
  deriving DecidableEq, Repr

inductive BookReply
  | admitted (result : Except RejectReason Slot)
  | executed (executions : List MatchExecution) (outcome : NewOrderOutcome)
  | notWaiting
  | cancelled (result : Except RejectReason CancelledOrder)

structure Waiting where
  slot : Slot
  order : RestingOrder
  deriving DecidableEq, Repr

abbrev Reported := Side → ℕ → List RestingOrder

namespace Reported

variable (reported : Reported)

def fill (execution : MatchExecution) : Reported := fun side price =>
  amend execution.restingOrderId execution.restingRemainingQuantity (reported side price)

def rest (order : RestingOrder) : Reported := fun side price =>
  if side = order.side ∧ price = order.price then reported side price ++ [order] else reported side price

def execute (order : RestingOrder) (executions : List MatchExecution) (outcome : NewOrderOutcome) : Reported :=
  let filled := executions.foldl fill reported
  if outcome.rested then filled.rest { order with remainingQuantity := outcome.remainingQuantity } else filled

def remove (orderId : ℕ) : Reported := fun side price => (reported side price).filter (·.orderId ≠ orderId)

end Reported

/-- The book in the hands of a client, who executes an order once and not after cancelling it. -/
structure BookSession where
  book : OrderBook
  waiting : List Waiting
  reported : Reported

namespace BookSession

def start (book : OrderBook) : BookSession := { book, waiting := [], reported := fun _ _ => [] }

variable (session : BookSession)

def call : BookCall → Except Fault (BookSession × BookReply)
  | .admitOrder command orderId =>
    match session.book.admitOrder command orderId with
    | (book, .ok order) =>
      let waiting := ⟨order, incoming command orderId⟩ :: session.waiting
      .ok ({ session with book, waiting }, .admitted (.ok order))
    | (book, .error reason) => .ok ({ session with book }, .admitted (.error reason))
  | .execute order =>
    match session.waiting.find? (·.slot = order) with
    | none => .ok (session, .notWaiting)
    | some waiter => do
      let (book, executions, outcome) ← session.book.execute order
      let waiting := session.waiting.filter (·.slot ≠ order)
      let reported := session.reported.execute waiter.order executions outcome
      .ok ({ book, waiting, reported }, .executed executions outcome)
  | .cancel command =>
    match session.book.cancel command with
    | (book, .ok cancelled) =>
      let waiting := session.waiting.filter (·.order.orderId ≠ command.orderId)
      let reported := session.reported.remove command.orderId
      .ok ({ book, waiting, reported }, .cancelled (.ok cancelled))
    | (book, .error reason) => .ok ({ session with book }, .cancelled (.error reason))

structure Safe : Prop where
  levels : ∀ side index, session.book.levelOrders side index = session.reported side index
  waiting : ∀ waiter ∈ session.waiting, (session.book.order waiter.slot).view = waiter.order ∧
    session.book.ordersById.find session.book.bucket waiter.order.orderId = some waiter.slot
  activeOrders : ∀ side, (session.book.sides side).activeOrders = (session.book.linkedSlots side).length
  no_best : ∀ side, (session.book.sides side).best = none ↔
    ∀ p < session.book.config.priceLevelCount, (session.book.level side p).empty = true
  best : ∀ side best, (session.book.sides side).best = some best →
    best < session.book.config.priceLevelCount ∧ (session.book.level side best).empty = false ∧
      ∀ p, (session.book.level side p).empty = false → ¬ side.better p best

def Patient : BookCall → Prop
  | .cancel command => command.symbolId = session.book.symbolId →
      ∀ waiter ∈ session.waiting, waiter.order.orderId = command.orderId →
        waiter.order.clientId ≠ command.clientId ∨ waiter.order.clientOrderId ≠ command.clientOrderId
  | _ => True

end BookSession

section Reported

variable {book : Side → List RestingOrder} {reported : Reported}

theorem Reported.foldl_fill (hr : ∀ sd p, reported sd p = (book sd).filter (·.price = p)) (o : Order)
    (fills : List Fill) (sd : Side) (p : ℕ) :
    (fills.map (executionOf o)).foldl fill reported sd p = (fills.foldl amendAll book sd).filter (·.price = p) := by
  induction fills generalizing book reported with
  | nil => exact hr sd p
  | cons fill fills ih =>
    rw [List.map_cons, List.foldl_cons, List.foldl_cons]
    refine ih (fun sd p => ?_)
    rw [amendAll, filter_amend (fun _ _ => rfl), ← hr]
    rfl

theorem Reported.execute_eq (hr : ∀ sd p, reported sd p = (book sd).filter (·.price = p)) (o : Order)
    {order : RestingOrder} {s : Swept}
    (hs : s.fills.foldl amendAll book = Function.update book order.side.opposite s.resting)
    (hbook : Prioritized order.side.better RestingOrder.price (book order.side)) (sd : Side) (p : ℕ) :
    reported.execute order (s.fills.map (executionOf o))
        { remainingQuantity := s.unfilled, rested := decide (0 < s.unfilled) } sd p =
      (settle book order s sd).filter (·.price = p) := by
  have hfilled := Reported.foldl_fill hr o s.fills
  rw [hs] at hfilled
  have hside : Function.update book order.side.opposite s.resting order.side = book order.side :=
    Function.update_of_ne (Side.opposite_ne order.side).symm _ _
  unfold execute settle
  by_cases hleft : 0 < s.unfilled
  · have hqueue : Prioritized order.side.better RestingOrder.price
        (Function.update book order.side.opposite s.resting order.side) := by rwa [hside]
    have hrested := filter_rested { order with remainingQuantity := s.unfilled } hqueue sd p
    rw [hside] at hrested
    simp only [decide_eq_true hleft, if_true, if_pos hleft]
    rw [hrested, rest, hfilled]
  · simp only [decide_eq_false hleft, if_neg hleft]
    exact hfilled sd p

end Reported

theorem BookInv.distinct {book : OrderBook} {queues : Side → List Slot} {pending : List Slot}
    (h : BookInv book queues pending) (sd : Side) : Distinct (fun sd => book.views (queues sd)) sd := by
  have hheld : (book.heldIds (queues sd ++ queues sd.opposite)).Nodup := by
    refine ((List.Perm.map _ ?_).nodup_iff).mp
      (h.heldIds_nodup.sublist ((List.sublist_append_left (queues .buy ++ queues .sell) pending).map _))
    cases sd
    · exact List.Perm.refl _
    · exact List.perm_append_comm
  unfold Distinct
  rwa [views_ids, views_ids, heldIds, heldIds, ← List.map_append]

namespace BookSession

variable {session : BookSession} {queues : Side → List Slot}

structure Consistent (session : BookSession) (queues : Side → List Slot) : Prop where
  inv : BookInv session.book queues (session.waiting.map Waiting.slot)
  waiting : ∀ waiter ∈ session.waiting, (session.book.order waiter.slot).view = waiter.order
  reported : ∀ sd p, session.reported sd p = (session.book.views (queues sd)).filter (·.price = p)

namespace Consistent

theorem safe (h : session.Consistent queues) : session.Safe where
  levels := fun sd p => (h.inv.levelOrders_eq sd p).trans (h.reported sd p).symm
  waiting := by
    intro waiter hw
    have hview := h.waiting waiter hw
    refine ⟨hview, (h.inv.find_iff _).mpr ⟨mem_heldSlots.mpr (.inr (List.mem_map_of_mem hw)), ?_⟩⟩
    exact congrArg RestingOrder.orderId hview
  activeOrders := fun sd => (h.inv.activeOrders sd).trans (h.inv.linkedSlots_perm sd).length_eq.symm
  no_best := h.inv.best_eq_none_iff
  best := fun _ _ hbest => h.inv.best_eq_some hbest

theorem waiting_slot (h : session.Consistent queues) {waiter : Waiting} (hw : waiter ∈ session.waiting) :
    waiter.slot ∈ heldSlots queues (session.waiting.map Waiting.slot) ∧
      (session.book.order waiter.slot).orderId = waiter.order.orderId :=
  ⟨mem_heldSlots.mpr (.inr (List.mem_map_of_mem hw)), congrArg RestingOrder.orderId (h.waiting waiter hw)⟩

theorem waiting_perm (h : session.Consistent queues) {waiter : Waiting} (hw : waiter ∈ session.waiting) :
    session.waiting.map Waiting.slot ~
      waiter.slot :: (session.waiting.filter (·.slot ≠ waiter.slot)).map Waiting.slot := by
  have hd : (session.waiting.map Waiting.slot).Nodup := (List.nodup_append.mp h.inv.held_nodup).2.1
  have herase : (session.waiting.filter (·.slot ≠ waiter.slot)).map Waiting.slot =
      (session.waiting.map Waiting.slot).erase waiter.slot := by
    rw [hd.erase_eq_filter, List.filter_map]
    congr 1
    apply List.filter_congr
    intro other _
    rw [Bool.eq_iff_iff]
    simp
  rw [herase]
  exact List.perm_cons_erase (List.mem_map_of_mem hw)

theorem admitOrder (h : session.Consistent queues) (command : NewOrderCommand) (orderId : ℕ) :
    ∃ session' reply, session.call (.admitOrder command orderId) = .ok (session', reply) ∧
      session'.Consistent queues := by
  unfold call
  cases hadmitted : admitError session.book.symbolId session.book.config
      (session.book.heldIds (heldSlots queues (session.waiting.map Waiting.slot))) orderId command with
  | none =>
    obtain ⟨book', x, he, hinv, hx, hdata, hframe, -⟩ := h.inv.admit_ok hadmitted
    simp only [he]
    refine ⟨_, _, rfl, hinv, ?_, fun sd p => ?_⟩
    · intro waiter hw
      rcases List.mem_cons.mp hw with rfl | hw
      · dsimp only
        rw [← view_data, hdata]
        rfl
      · rw [hframe _ (ne_of_mem_of_not_mem (h.waiting_slot hw).1 hx)]
        exact h.waiting waiter hw
    · rw [views_congr (fun s hs => congrArg Order.data (hframe s ?_))]
      · exact h.reported sd p
      · exact ne_of_mem_of_not_mem (mem_heldSlots.mpr (.inl ⟨sd, hs⟩)) hx
  | some reason =>
    obtain ⟨book', he, hinv, hkept, -⟩ := h.inv.admit_error hadmitted
    simp only [he]
    refine ⟨_, _, rfl, hinv, fun waiter hw => ?_, fun sd p => ?_⟩
    · rw [hkept _ (h.waiting_slot hw).1]
      exact h.waiting waiter hw
    · rw [views_congr (fun s hs => congrArg Order.data (hkept s (mem_heldSlots.mpr (.inl ⟨sd, hs⟩))))]
      exact h.reported sd p

theorem execute (h : session.Consistent queues) (order : Slot) :
    ∃ session' reply queues', session.call (.execute order) = .ok (session', reply) ∧
      session'.Consistent queues' := by
  simp only [call]
  cases hfind : session.waiting.find? (·.slot = order) with
  | none => exact ⟨session, _, queues, rfl, h⟩
  | some waiter =>
    have hw := List.mem_of_find?_eq_some hfind
    obtain rfl : waiter.slot = order := by simpa using List.find?_some hfind
    have hview := h.waiting waiter hw
    obtain ⟨book', queues', hexecute, hinv, hviews, -, -, -, hkept⟩ :=
      (h.inv.pending_perm (h.waiting_perm hw)).execute
    rw [hview] at hviews
    simp only [hexecute, ok_bind]
    refine ⟨_, _, queues', rfl, hinv, fun other hother => ?_, fun sd p => ?_⟩
    · rw [← view_data, hkept _ (List.mem_map_of_mem hother), view_data]
      exact h.waiting other (List.mem_of_mem_filter hother)
    · rw [show book'.views (queues' sd) = _ from congrFun hviews sd]
      refine Reported.execute_eq h.reported _ ?_ ?_ sd p
      · rw [← hview]
        exact amend_fills _ _ rfl (h.inv.distinct _) _
      · exact (Prioritized.map fun s => rfl).mpr (h.inv.side _).prioritized

theorem cancel_resting (h : session.Consistent queues) {command : CancelOrderCommand} {x : Slot} {sd : Side}
    (hx : x ∈ queues sd) (hsymbol : command.symbolId = session.book.symbolId)
    (hid : (session.book.order x).orderId = command.orderId)
    (hclient : (session.book.order x).clientId = command.clientId)
    (hclientOrder : (session.book.order x).clientOrderId = command.clientOrderId) :
    ∃ session' reply queues', session.call (.cancel command) = .ok (session', reply) ∧
      session'.Consistent queues' ∧ session.Patient (.cancel command) := by
  obtain ⟨as, bs, hq⟩ := List.append_of_mem hx
  obtain ⟨book', hcancel, hinv, hdata, -⟩ := h.inv.cancel_owned hsymbol hq hid hclient hclientOrder
  have hother : ∀ waiter ∈ session.waiting, waiter.slot ≠ x ∧ waiter.order.orderId ≠ command.orderId := by
    intro waiter hw
    have hne : waiter.slot ≠ x := fun he => h.inv.not_pending hx (he ▸ List.mem_map_of_mem hw)
    obtain ⟨hheld, hwid⟩ := h.waiting_slot hw
    refine ⟨hne, fun he => hne (h.inv.orderId_inj hheld (mem_heldSlots.mpr (.inl ⟨sd, hx⟩)) ?_)⟩
    rw [hwid, he, hid]
  have hkept : session.waiting.filter (·.order.orderId ≠ command.orderId) = session.waiting :=
    List.filter_eq_self.mpr fun waiter hw => decide_eq_true (hother waiter hw).2
  simp only [call, hcancel, hkept]
  refine ⟨_, _, _, rfl, ⟨hinv, fun waiter hw => ?_, fun sd' p => ?_⟩,
    fun _ waiter hw he => absurd he (hother waiter hw).2⟩
  · rw [← view_data, hdata _ (hother waiter hw).1, view_data]
    exact h.waiting waiter hw
  · rw [views_congr (fun s hs => hdata s (h.inv.mem_removed hq hs).2), h.inv.views_removed hq, hid,
      List.filter_comm, ← h.reported]
    rfl

theorem reported_waiting (h : session.Consistent queues) {waiter : Waiting} (hw : waiter ∈ session.waiting) :
    session.reported.remove waiter.order.orderId = session.reported := by
  obtain ⟨hheld, hid⟩ := h.waiting_slot hw
  funext sd p
  refine List.filter_eq_self.mpr fun r hr => decide_eq_true fun he => ?_
  rw [h.reported] at hr
  obtain ⟨s, hs, rfl⟩ := List.mem_map.mp (List.mem_of_mem_filter hr)
  have hsame := h.inv.orderId_inj (mem_heldSlots.mpr (.inl ⟨sd, hs⟩)) hheld (he.trans hid.symm)
  exact h.inv.not_pending hs (hsame ▸ List.mem_map_of_mem hw)

/-- Cancelling an order that waits for its execution makes its side count one order less than its levels hold. -/
theorem cancel_waiting (h : session.Consistent queues) {command : CancelOrderCommand} {waiter : Waiting}
    (hw : waiter ∈ session.waiting) (hsymbol : command.symbolId = session.book.symbolId)
    (hid : waiter.order.orderId = command.orderId) (hclient : waiter.order.clientId = command.clientId)
    (hclientOrder : waiter.order.clientOrderId = command.clientOrderId) :
    ∃ session' reply, session.call (.cancel command) = .ok (session', reply) ∧ ¬ session'.Safe := by
  have hview := h.waiting waiter hw
  rw [← hview] at hid hclient hclientOrder
  obtain ⟨book', cancelled, hcancel, hconfig, hactive⟩ :=
    h.inv.cancel_pending hsymbol (List.mem_map_of_mem hw) hid hclient hclientOrder
  have hreported := h.reported_waiting hw
  rw [← hview, hid] at hreported
  simp only [call, hcancel]
  refine ⟨_, _, rfl, fun hsafe => ?_⟩
  have hcount := hsafe.activeOrders (session.book.order waiter.slot).side
  have hlevels := hsafe.levels (session.book.order waiter.slot).side
  simp only [hreported, ← h.safe.levels] at hlevels
  dsimp only at hcount
  rw [hactive, linkedSlots_length, hconfig] at hcount
  simp only [hlevels] at hcount
  rw [← linkedSlots_length, ← h.safe.activeOrders] at hcount
  have hlt : (session.book.sides (session.book.order waiter.slot).side).activeOrders < word := by
    rw [h.inv.activeOrders]
    exact h.inv.queue_length_lt _
  exact wrapSub_one_ne hlt hcount

theorem cancel (h : session.Consistent queues) (command : CancelOrderCommand) :
    ∃ session' reply, session.call (.cancel command) = .ok (session', reply) ∧
      (session.Patient (.cancel command) → ∃ queues', session'.Consistent queues') ∧
      (session'.Safe → session.Patient (.cancel command)) := by
  have hrefused : ∀ reason, session.book.cancel command = (session.book, .error reason) →
      session.Patient (.cancel command) → ∃ session' reply,
        session.call (.cancel command) = .ok (session', reply) ∧
          (session.Patient (.cancel command) → ∃ queues', session'.Consistent queues') ∧
          (session'.Safe → session.Patient (.cancel command)) := by
    intro reason hcancel hpatient
    simp only [call, hcancel]
    exact ⟨_, _, rfl, fun _ => ⟨queues, h⟩, fun _ => hpatient⟩
  by_cases hsymbol : command.symbolId = session.book.symbolId
  swap
  · refine hrefused .unknownSymbol ?_ (fun he => absurd he hsymbol)
    rw [OrderBook.cancel, if_pos hsymbol]
  by_cases hheld : command.orderId ∈ session.book.heldIds (heldSlots queues (session.waiting.map Waiting.slot))
  swap
  · refine hrefused _ (h.inv.cancel_unknown hsymbol hheld) fun _ waiter hw he => absurd ?_ hheld
    obtain ⟨hslot, hid⟩ := h.waiting_slot hw
    rw [← he, ← hid]
    exact List.mem_map_of_mem hslot
  obtain ⟨x, hx, hid⟩ := List.mem_map.mp hheld
  by_cases howner : (session.book.order x).clientId ≠ command.clientId ∨
      (session.book.order x).clientOrderId ≠ command.clientOrderId
  · refine hrefused _ (h.inv.cancel_foreign hsymbol hx hid howner) fun _ waiter hw he => ?_
    obtain ⟨hslot, hwid⟩ := h.waiting_slot hw
    obtain rfl := h.inv.orderId_inj hx hslot (hid.trans (he.symm.trans hwid.symm))
    rwa [← h.waiting waiter hw]
  push Not at howner
  rcases mem_heldSlots.mp hx with ⟨sd, hq⟩ | hpending
  · obtain ⟨session', reply, queues', hcall, hnext, hpatient⟩ :=
      h.cancel_resting hq hsymbol hid howner.1 howner.2
    exact ⟨session', reply, hcall, fun _ => ⟨queues', hnext⟩, fun _ => hpatient⟩
  · obtain ⟨waiter, hw, rfl⟩ := List.mem_map.mp hpending
    have hview := h.waiting waiter hw
    have hterms : waiter.order.orderId = command.orderId ∧ waiter.order.clientId = command.clientId ∧
        waiter.order.clientOrderId = command.clientOrderId := by
      rw [← hview]
      exact ⟨hid, howner⟩
    obtain ⟨session', reply, hcall, hunsafe⟩ := h.cancel_waiting hw hsymbol hterms.1 hterms.2.1 hterms.2.2
    refine ⟨session', reply, hcall, fun hpatient => ?_, fun hsafe => absurd hsafe hunsafe⟩
    rcases hpatient hsymbol waiter hw hterms.1 with hne | hne
    exacts [absurd hterms.2.1 hne, absurd hterms.2.2 hne]

end Consistent

end BookSession

theorem session_safe_iff {symbolId : ℕ} {config : OrderBookConfig} {book : OrderBook}
    (hlt : config.orderLookupCapacity < word) (hnew : OrderBook.create symbolId config = some book)
    (calls : List BookCall) :
    Transducer.Throughout BookSession.call BookSession.Safe (.start book) calls ↔
      Transducer.StepsFit BookSession.call BookSession.Patient (.start book) calls := by
  apply Transducer.throughout_iff (I := fun session => ∃ queues, session.Consistent queues)
  · rintro session ⟨queues, h⟩
    exact h.safe
  · rintro session call ⟨queues, h⟩
    cases call with
    | admitOrder command orderId =>
      obtain ⟨session', reply, hcall, hnext⟩ := h.admitOrder command orderId
      exact ⟨session', reply, hcall, fun _ => ⟨queues, hnext⟩, fun _ => trivial⟩
    | execute order =>
      obtain ⟨session', reply, queues', hcall, hnext⟩ := h.execute order
      exact ⟨session', reply, hcall, fun _ => ⟨queues', hnext⟩, fun _ => trivial⟩
    | cancel command => exact h.cancel command
  · refine ⟨fun _ => [], (BookInv.create hlt hnew).1, fun waiter hw => ?_, fun sd p => rfl⟩
    cases hw

def sampleBid (clientOrderId : ℕ) : NewOrderCommand where
  seq := clientOrderId
  price := 100
  quantity := 10
  clientOrderId := clientOrderId
  clientId := 1
  symbolId := 0
  side := .buy
  orderType := .limit
  tif := .gfd

def sampleCancel (orderId clientOrderId : ℕ) : CancelOrderCommand where
  seq := 9
  orderId := orderId
  clientOrderId := clientOrderId
  clientId := 1
  symbolId := 0

def patientCalls : List BookCall :=
  [.admitOrder (sampleBid 1) 1, .admitOrder (sampleBid 2) 2, .execute 1, .execute 0, .cancel (sampleCancel 2 2)]

theorem session_safe_iff_default : ∃ book, OrderBook.create 0 defaultOrderBookConfig = some book ∧
    (Transducer.Throughout BookSession.call BookSession.Safe (.start book) patientCalls ↔
      Transducer.StepsFit BookSession.call BookSession.Patient (.start book) patientCalls) := by
  have hsome : (OrderBook.create 0 defaultOrderBookConfig).isSome = true := rfl
  obtain ⟨book, hnew⟩ := Option.isSome_iff_exists.mp hsome
  exact ⟨book, hnew, session_safe_iff (by decide) hnew patientCalls⟩

/-- The second order is cancelled before it is executed, and takes the first one with it. -/
def hastyCalls : List BookCall :=
  [.admitOrder (sampleBid 1) 1, .execute 0, .admitOrder (sampleBid 2) 2, .cancel (sampleCancel 2 2)]

theorem hasty_cancel_loses_order : ∃ book, OrderBook.create 0 defaultOrderBookConfig = some book ∧
    ∃ session replies, Transducer.run BookSession.call (.start book) hastyCalls = .ok (session, replies) ∧
      session.reported .buy 100 = [⟨1, 1, 1, .buy, 100, 10⟩] ∧ session.book.levelOrders .buy 100 = [] ∧
      session.book.bestBid = none ∧
      ¬ Transducer.Throughout BookSession.call BookSession.Safe (.start book) hastyCalls := by
  have hrun : ((OrderBook.create 0 defaultOrderBookConfig).bind fun book =>
      (Transducer.run BookSession.call (.start book) hastyCalls).toOption.map fun result =>
        (result.1.reported .buy 100, result.1.book.levelOrders .buy 100, result.1.book.bestBid)) =
      some ([⟨1, 1, 1, .buy, 100, 10⟩], [], none) := by decide +kernel
  obtain ⟨book, hnew, hresult⟩ := Option.bind_eq_some_iff.mp hrun
  obtain ⟨⟨session, replies⟩, hsession, hvalues⟩ := Option.map_eq_some_iff.mp hresult
  obtain ⟨hreported, hlevel, hbest⟩ : session.reported .buy 100 = [⟨1, 1, 1, .buy, 100, 10⟩] ∧
      session.book.levelOrders .buy 100 = [] ∧ session.book.bestBid = none := by
    simpa only [Prod.mk.injEq] using hvalues
  have hok : Transducer.run BookSession.call (.start book) hastyCalls = .ok (session, replies) := by
    cases hr : Transducer.run BookSession.call (.start book) hastyCalls with
    | error fault =>
      rw [hr] at hsession
      cases hsession
    | ok result =>
      rw [hr] at hsession
      exact congrArg Except.ok (Option.some.inj hsession)
  refine ⟨book, hnew, session, replies, hok, hreported, hlevel, hbest, fun hsafe => ?_⟩
  obtain ⟨session', replies', hrun', hgood⟩ := hsafe _ (List.prefix_refl _)
  obtain ⟨rfl, -⟩ := Prod.mk.inj (Except.ok.inj (hrun'.symm.trans hok))
  have hshown := hgood.levels .buy 100
  rw [hlevel, hreported] at hshown
  cases hshown

end Sixchange

import Mathlib.Logic.Relation
import Sixchange.Engine.Representation
import Sixchange.Map.Layout

namespace Sixchange

open FixedOrderMap
open scoped List

def ErasesTo : FixedOrderMap ℕ Slot → FixedOrderMap ℕ Slot → Prop :=
  Relation.ReflTransGen fun m m' => ∃ key, m' = (m.erase (mixBucket m.mask) key).2

namespace OrderBook

variable {book book' : OrderBook} {side : Side} {crosses : ℕ → ℕ → Bool} {updateBest : OrderBook → ℕ → OrderBook}
  {aggressor : Slot} {levelIndex : ℕ}

theorem updateBestBid_ordersById (book : OrderBook) (index : ℕ) :
    (book.updateBestBidAfterRemoval index).ordersById = book.ordersById := by
  unfold updateBestBidAfterRemoval
  split_ifs <;> rfl

theorem updateBestAsk_ordersById (book : OrderBook) (index : ℕ) :
    (book.updateBestAskAfterRemoval index).ordersById = book.ordersById := by
  unfold updateBestAskAfterRemoval
  split_ifs <;> rfl

theorem restOn_ordersById (book : OrderBook) (side : Side) (better : ℕ → ℕ → Bool) (order : Slot) :
    (book.restOn side better order).ordersById = book.ordersById := by
  unfold restOn
  dsimp only
  split
  · rfl
  · split_ifs <;> rfl

theorem rest_ordersById {order : Slot} (h : book.rest order = .ok book') : book'.ordersById = book.ordersById := by
  unfold rest at h
  obtain ⟨-, -, h⟩ := bind_ok h
  obtain ⟨-, -, h⟩ := bind_ok h
  split at h <;> obtain rfl := Except.ok.inj h <;> exact restOn_ordersById ..

theorem removeFilled_erases (hupdate : ∀ b index, (updateBest b index).ordersById = b.ordersById) {resting : Slot}
    (h : book.removeFilled side updateBest levelIndex resting = .ok book') :
    ErasesTo book.ordersById book'.ordersById := by
  unfold removeFilled at h
  dsimp only at h
  obtain ⟨-, -, h⟩ := bind_ok h
  have hlookup : book'.ordersById = (book.ordersById.erase (mixBucket book.ordersById.mask)
      ((book.removeFromLevel side levelIndex resting).order resting).orderId).2 := by
    split_ifs at h <;> obtain rfl := Except.ok.inj h
    · rw [hupdate]
      rfl
    · rfl
  exact .single ⟨_, hlookup⟩

theorem applyFill_ordersById (book : OrderBook) (side : Side) (levelIndex : ℕ) (aggressor resting : Slot)
    (executedQuantity : ℕ) :
    (book.applyFill side levelIndex aggressor resting executedQuantity).ordersById = book.ordersById := rfl

theorem matchFront_erases (hupdate : ∀ b index, (updateBest b index).ordersById = b.ordersById)
    {execution : MatchExecution} (h : book.matchFront side updateBest aggressor levelIndex = .ok (book', execution)) :
    ErasesTo book.ordersById book'.ordersById := by
  unfold matchFront at h
  split at h
  · cases h
  · obtain ⟨-, -, h⟩ := bind_ok h
    dsimp only at h
    split at h
    · obtain ⟨book₁, hremoved, h⟩ := bind_ok h
      have herases := removeFilled_erases hupdate hremoved
      rw [applyFill_ordersById] at herases
      cases h
      exact herases
    · cases h
      exact .refl

theorem matchLoop_erases (hupdate : ∀ b index, (updateBest b index).ordersById = b.ordersById) {fuel : ℕ}
    {executions : List MatchExecution}
    (h : matchLoop side crosses updateBest aggressor fuel book = .ok (book', executions)) :
    ErasesTo book.ordersById book'.ordersById := by
  induction fuel generalizing book executions with
  | zero =>
    unfold matchLoop at h
    split at h
    · obtain ⟨rfl, -⟩ := Prod.mk.inj (Except.ok.inj h)
      exact .refl
    · cases h
    · contradiction
  | succ fuel ih =>
    unfold matchLoop at h
    split at h
    · obtain ⟨rfl, -⟩ := Prod.mk.inj (Except.ok.inj h)
      exact .refl
    · contradiction
    · next heq =>
      obtain rfl := Nat.succ.inj heq
      obtain ⟨⟨book₁, execution⟩, hfront, h⟩ := bind_ok h
      obtain ⟨⟨book₂, rest⟩, hloop, h⟩ := bind_ok h
      obtain ⟨rfl, -⟩ := Prod.mk.inj (Except.ok.inj h)
      exact (matchFront_erases hupdate hfront).trans (ih hloop)

theorem matchOrder_erases {executions : List MatchExecution} (h : book.matchOrder aggressor = .ok (book', executions)) :
    ErasesTo book.ordersById book'.ordersById := by
  unfold matchOrder at h
  split at h
  · exact matchLoop_erases updateBestAsk_ordersById h
  · exact matchLoop_erases updateBestBid_ordersById h

theorem execute_erases {executions : List MatchExecution} {outcome : NewOrderOutcome}
    (h : book.execute aggressor = .ok (book', executions, outcome)) : ErasesTo book.ordersById book'.ordersById := by
  unfold execute at h
  obtain ⟨-, -, h⟩ := bind_ok h
  obtain ⟨⟨book₁, executions⟩, hmatch, h⟩ := bind_ok h
  have herases := matchOrder_erases hmatch
  dsimp only at h
  split_ifs at h
  · obtain ⟨book₂, hrest, h⟩ := bind_ok h
    obtain ⟨rfl, -⟩ := Prod.mk.inj (Except.ok.inj h)
    rwa [rest_ordersById hrest]
  · obtain ⟨-, -, h⟩ := bind_ok h
    obtain ⟨rfl, -⟩ := Prod.mk.inj (Except.ok.inj h)
    exact herases.tail ⟨_, rfl⟩

theorem unlink_ordersById (book : OrderBook) (order : Slot) : (book.unlink order).ordersById = book.ordersById := by
  unfold unlink
  split <;> unfold unlinkFrom <;> dsimp only <;> split_ifs
  · exact updateBestBid_ordersById ..
  · rfl
  · exact updateBestAsk_ordersById ..
  · rfl

theorem cancel_erases (book : OrderBook) (command : CancelOrderCommand) :
    ErasesTo book.ordersById (book.cancel command).1.ordersById := by
  unfold cancel
  split_ifs
  · exact .refl
  · split
    · exact .refl
    · next order hfind =>
      split_ifs
      · exact .refl
      · have hunlink := book.unlink_ordersById order
        dsimp only
        rw [← hunlink]
        split <;> next herase => exact .single ⟨command.orderId, (congrArg Prod.snd herase).symm⟩

theorem admitOrder_inserts {command : NewOrderCommand} {orderId : ℕ} {x : Slot}
    (h : book.admitOrder command orderId = (book', .ok x)) :
    book.ordersById.insert (mixBucket book.ordersById.mask) orderId x = (.inserted, book'.ordersById) := by
  unfold admitOrder at h
  split_ifs at h
  · cases (Prod.mk.inj h).2
  · cases (Prod.mk.inj h).2
  · cases (Prod.mk.inj h).2
  · split at h
    · cases (Prod.mk.inj h).2
    · split at h
      · next hinsert =>
        obtain ⟨rfl, hx⟩ := Prod.mk.inj h
        obtain rfl := Except.ok.inj hx
        exact hinsert
      · cases (Prod.mk.inj h).2
      · cases (Prod.mk.inj h).2

end OrderBook

structure LaidInOrder (new m : FixedOrderMap ℕ Slot) (n : ℕ) : Prop where
  mask_eq : m.mask = new.mask
  capacity_eq : m.capacity = new.capacity
  laid : ∃ l, Laid (mixBucket new.mask) m l ∧ (l.map Prod.fst).Pairwise (· < ·) ∧ ∀ key ∈ l.map Prod.fst, key ≤ n

namespace LaidInOrder

variable {new m m' : FixedOrderMap ℕ Slot} {n : ℕ}

theorem erase (h : LaidInOrder new m n) (key : ℕ) : LaidInOrder new (m.erase (mixBucket m.mask) key).2 n := by
  obtain ⟨l, hlaid, hincreasing, hle⟩ := h.laid
  obtain ⟨l', hsub, hlaid', hmask, hcapacity⟩ := hlaid.erase key
  have hkeys := hsub.map Prod.fst
  rw [h.mask_eq]
  exact ⟨hmask.trans h.mask_eq, hcapacity.trans h.capacity_eq, l', hlaid', hincreasing.sublist hkeys,
    fun key hkey => hle key (hkeys.subset hkey)⟩

theorem erases (h : LaidInOrder new m n) (herases : ErasesTo m m') : LaidInOrder new m' n := by
  induction herases with
  | refl => exact h
  | tail _ hstep ih =>
    obtain ⟨key, rfl⟩ := hstep
    exact ih.erase key

theorem insert (h : LaidInOrder new m n) {x : Slot}
    (hinsert : m.insert (mixBucket m.mask) (n + 1) x = (.inserted, m')) : LaidInOrder new m' (n + 1) := by
  obtain ⟨l, hlaid, hincreasing, hle⟩ := h.laid
  rw [h.mask_eq] at hinsert
  have hnew : n + 1 ∉ l.map Prod.fst := fun hmem => Nat.not_succ_le_self n (hle _ hmem)
  have hroom : l.length < m.capacity := by
    refine lt_of_le_of_ne hlaid.represents.length_le fun hfull => ?_
    rw [hlaid.represents.insert_full x hnew hfull] at hinsert
    cases hinsert
  have hlaid' := hlaid.insert_fresh x hnew hroom
  obtain ⟨m₁, hm₁, -, hcapacity, hmask⟩ := hlaid.represents.insert_fresh x hnew hroom
  rw [hinsert] at hlaid' hm₁
  obtain rfl := (Prod.mk.inj hm₁).2
  refine ⟨hmask.trans h.mask_eq, hcapacity.trans h.capacity_eq, _, hlaid', ?_, ?_⟩
  · rw [List.map_append]
    refine List.pairwise_append.mpr ⟨hincreasing, List.pairwise_singleton _ _, fun key hkey last hlast => ?_⟩
    obtain rfl := List.mem_singleton.mp hlast
    exact Nat.lt_succ_of_le (hle key hkey)
  · intro key hkey
    rw [List.map_append] at hkey
    rcases List.mem_append.mp hkey with hkey | hkey
    · exact Nat.le_succ_of_le (hle key hkey)
    · exact (List.mem_singleton.mp hkey).le

theorem rebuilt (h : LaidInOrder new m n) (hnew : Laid (mixBucket new.mask) new []) :
    ∃ entries, (entries.map Prod.fst).Pairwise (· < ·) ∧ m.Represents (mixBucket new.mask) entries ∧
      m = (Transducer.trace (call (mixBucket new.mask)) new (inserts entries)).1 := by
  obtain ⟨entries, hlaid, hincreasing, -⟩ := h.laid
  have hlength := hlaid.represents.length_le
  rw [h.capacity_eq] at hlength
  obtain ⟨hlaid', hcapacity, hmask⟩ := hnew.trace_inserts hlaid.represents.keys ((Nat.zero_add _).trans_le hlength)
  exact ⟨entries, hincreasing, hlaid.represents,
    hlaid.eq hlaid' (h.capacity_eq.trans hcapacity.symm) (h.mask_eq.trans hmask.symm)⟩

end LaidInOrder

theorem MatchingEngine.trace_onMatch_orderBook (engine : MatchingEngine) (executions : List MatchExecution) :
    (Transducer.trace MatchingEngine.onMatch engine executions).1.orderBook = engine.orderBook :=
  Transducer.trace_invariant (I := fun engine' : MatchingEngine => engine'.orderBook = engine.orderBook)
    (fun _ _ h => h) rfl executions

namespace Refines

variable {symbolId : ℕ} {config : OrderBookConfig} {engine engine' : MatchingEngine} {market : Market}
  {queues : Side → List Slot} {events : List EngineEvent} {new : FixedOrderMap ℕ Slot}

theorem processNewOrder_laid (h : Refines symbolId config engine market queues) {command : NewOrderCommand}
    (hrefusal : market.refusal symbolId config command = none)
    (hlaid : LaidInOrder new engine.orderBook.ordersById market.accepted) (hlt : market.accepted + 1 < word)
    (hrun : engine.processNewOrder command = .ok (engine', events)) :
    LaidInOrder new engine'.orderBook.ordersById (market.accepted + 1) := by
  rw [Market.refusal] at hrefusal
  split_ifs at hrefusal with htype htif
  obtain ⟨book₁, x, book₂, -, hadmitted, hexecute, -⟩ := h.shows.submit hrefusal
  rw [← h.nextOrderId_eq] at hadmitted
  rw [MatchingEngine.processNewOrder, if_neg htype, if_neg htif] at hrun
  dsimp only at hrun
  rw [hadmitted] at hrun
  dsimp only at hrun
  rw [hexecute, ok_bind] at hrun
  obtain ⟨rfl, -⟩ := Prod.mk.inj (Except.ok.inj hrun)
  have hid : engine.nextOrderId = market.accepted + 1 := h.nextOrderId_eq.trans (Nat.mod_eq_of_lt hlt)
  have hlaid₁ := hlaid.insert (hid ▸ OrderBook.admitOrder_inserts hadmitted)
  rw [MatchingEngine.trace_onMatch_orderBook]
  exact hlaid₁.erases (OrderBook.execute_erases hexecute)

theorem process_laid (h : Refines symbolId config engine market queues) (hn : market.Numbered)
    (command : EngineCommand) (hlaid : LaidInOrder new engine.orderBook.ordersById market.accepted)
    (hlt : (market.process symbolId config command).1.accepted < word)
    (hrun : engine.process command = .ok (engine', events)) :
    LaidInOrder new engine'.orderBook.ordersById (market.process symbolId config command).1.accepted := by
  cases command with
  | newOrder command =>
    cases hrefusal : market.refusal symbolId config command with
    | some reason =>
      have hfresh := hn.nextId_fresh ((Market.accepted_le market _).trans_lt hlt)
      obtain ⟨engine₁, hrun₁, -, hsame⟩ := h.submit_refused hrefusal
      rw [MatchingEngine.process, hrun₁, hsame hfresh] at hrun
      obtain ⟨rfl, -⟩ := Prod.mk.inj (Except.ok.inj hrun)
      rw [Market.process, Market.submit, hrefusal]
      exact hlaid
    | none =>
      rw [Market.process, Market.submit, hrefusal] at hlt ⊢
      exact h.processNewOrder_laid hrefusal hlaid hlt hrun
  | cancelOrder command =>
    have haccepted : (market.withdraw symbolId command).1.accepted = market.accepted := by
      rcases market.withdraw_cases symbolId command with ⟨reason, he⟩ | ⟨order, -, -, -, -, he⟩ <;> rw [he]
      rfl
    have hbook : (engine.processCancelOrder command).1.orderBook = (engine.orderBook.cancel command).1 := by
      rw [MatchingEngine.processCancelOrder]
      split <;> next hcancel => rw [hcancel]
    have hengine : engine.processCancelOrder command = (engine', events) := Except.ok.inj hrun
    rw [hengine] at hbook
    rw [Market.process, haccepted, hbook]
    exact hlaid.erases (engine.orderBook.cancel_erases command)
  | replaceOrder command =>
    obtain ⟨rfl, -⟩ := Prod.mk.inj (Except.ok.inj hrun)
    exact hlaid

end Refines

theorem OrderBook.create_laid {symbolId : ℕ} {config : OrderBookConfig} {book : OrderBook}
    (hlt : config.orderLookupCapacity < word) (hnew : OrderBook.create symbolId config = some book) :
    Laid book.bucket book.ordersById [] := by
  rw [OrderBook.create] at hnew
  split at hnew
  · cases hnew
  · next m hm =>
    split at hnew
    · cases hnew
    · obtain rfl := Option.some.inj hnew
      exact Laid.create hlt hm (create_mixBucket_lt hm)

section Runs

variable {symbolId : ℕ} {config : OrderBookConfig} {engine : MatchingEngine}

theorem Fresh.laid (h : Fresh symbolId config engine) :
    Laid engine.orderBook.bucket engine.orderBook.ordersById [] := by
  obtain ⟨book, hbook, rfl⟩ := Option.map_eq_some_iff.mp h.created
  exact OrderBook.create_laid h.fits hbook

theorem Fresh.run_laid (h : Fresh symbolId config engine) (commands : List EngineCommand) :
    ∃ final events market queues, engine.run commands = .ok (final, events) ∧
      Refines symbolId config final market queues ∧ (acceptedCount events < word →
        LaidInOrder engine.orderBook.ordersById final.orderBook.ordersById market.accepted) := by
  let R (engine' : MatchingEngine) (market : Market) : Prop := ∃ queues,
    Refines symbolId config engine' market queues ∧ market.Sound config ∧ (market.accepted < word →
      market.Numbered ∧ LaidInOrder engine.orderBook.ordersById engine'.orderBook.ordersById market.accepted)
  have hstep : ∀ engine₁ market command, R engine₁ market → ∃ engine₂,
      engine₁.process command = .ok (engine₂, (market.process symbolId config command).2) ∧
        R engine₂ (market.process symbolId config command).1 := by
    rintro engine₁ market command ⟨queues, hr, hs, hlaid⟩
    obtain ⟨engine₂, queues₂, hrun, hr₂⟩ := hr.process command
    refine ⟨engine₂, hrun, queues₂, hr₂, hs.process command, fun hlt => ?_⟩
    obtain ⟨hn, hlaid⟩ := hlaid ((Market.accepted_le market command).trans_lt hlt)
    exact ⟨hn.process hs command hlt, hr.process_laid hn command hlaid hlt hrun⟩
  have hstart : R engine .empty :=
    ⟨_, .create h.fits h.created, .empty, fun _ => ⟨.empty, rfl, rfl, [], h.laid, .nil, by simp⟩⟩
  obtain ⟨final, hrun, queues, hr, -, hlaid⟩ := Transducer.run_simulates hstep hstart commands
  have haccepted := Market.countP_run (Market.countP_accepted symbolId config) .empty commands
  refine ⟨final, _, _, queues, hrun, hr, fun hlt => (hlaid ?_).2⟩
  rw [haccepted]
  exact (Nat.zero_add _).trans_lt hlt

/-- The table that finds the orders never wears out: after any run it is the one that a new engine would have, had the
open orders been put into it one after the other, from the oldest on. -/
theorem lookup_rebuilt (h : Fresh symbolId config engine) (commands : List EngineCommand) :
    ∃ final events, engine.run commands = .ok (final, events) ∧
      (acceptedCount events < word → ∃ entries : List (ℕ × Slot),
        (entries.map Prod.fst).Pairwise (· < ·) ∧
        (∀ id slot, (id, slot) ∈ entries ↔
          (slot ∈ final.orderBook.linkedSlots .buy ∨ slot ∈ final.orderBook.linkedSlots .sell) ∧
            (final.orderBook.order slot).orderId = id) ∧
        final.orderBook.ordersById = (Transducer.trace (call engine.orderBook.bucket) engine.orderBook.ordersById
          (inserts entries)).1) := by
  obtain ⟨final, events, market, queues, hrun, hr, hlaid⟩ := h.run_laid commands
  refine ⟨final, events, hrun, fun hlt => ?_⟩
  have hlast := hlaid hlt
  obtain ⟨entries, hincreasing, hentries, hrebuilt⟩ := hlast.rebuilt h.laid
  refine ⟨entries, hincreasing, fun id slot => ?_, hrebuilt⟩
  have hbucket : mixBucket engine.orderBook.ordersById.mask = final.orderBook.bucket := by
    rw [← hlast.mask_eq]
    rfl
  rw [hbucket] at hentries
  rw [← hentries.find_iff, hr.inv.find_iff, hr.held_perm.mem_iff, List.mem_append]

theorem lookup_rebuilt_default : ∃ engine, Fresh 0 defaultOrderBookConfig engine ∧
    ∃ final events, engine.run [sampleBuy, sampleSell] = .ok (final, events) ∧
      ∃ entries : List (ℕ × Slot), (entries.map Prod.fst).Pairwise (· < ·) ∧
        (∀ id slot, (id, slot) ∈ entries ↔
          (slot ∈ final.orderBook.linkedSlots .buy ∨ slot ∈ final.orderBook.linkedSlots .sell) ∧
            (final.orderBook.order slot).orderId = id) ∧
        final.orderBook.ordersById = (Transducer.trace (call engine.orderBook.bucket) engine.orderBook.ordersById
          (inserts entries)).1 := by
  obtain ⟨engine, h⟩ := Fresh.default 0
  obtain ⟨final, events, hrun, hrebuilt⟩ := lookup_rebuilt h [sampleBuy, sampleSell]
  exact ⟨engine, h, final, events, hrun, hrebuilt ((h.acceptedCount_le hrun).trans_lt (by decide))⟩

end Runs

end Sixchange

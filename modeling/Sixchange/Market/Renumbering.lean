import Sixchange.Market.Steps
import Mathlib.Data.List.Find

namespace Sixchange

open PriorityList
open scoped List

/-- The place of an order in the order of acceptance, for as many orders as there are ids. -/
def arrival (id : ℕ) : ℕ := if id = 0 then word else id

def closeGap (gap id : ℕ) : ℕ := if arrival gap < arrival id then wrapSub id 1 else id

section Arrival

variable {gap id id' n : ℕ}

theorem arrival_pos (id : ℕ) : 0 < arrival id := by
  have hw : word = 18446744073709551616 := rfl
  rw [arrival]
  split_ifs <;> omega

theorem arrival_inj (hid : id < word) (hid' : id' < word) (h : arrival id = arrival id') : id = id' := by
  unfold arrival at h
  split_ifs at h <;> omega

theorem arrival_next (hn : n < word) : arrival ((n + 1) % word) = n + 1 := by
  rw [arrival]
  rcases Nat.lt_or_ge (n + 1) word with hlt | hge
  · rw [Nat.mod_eq_of_lt hlt, if_neg (Nat.succ_ne_zero n)]
  · have he : n + 1 = word := by omega
    rw [he, Nat.mod_self, if_pos rfl]

theorem arrival_of_pos (h : 0 < id) : arrival id = id := if_neg (Nat.pos_iff_ne_zero.mp h)

theorem arrival_closeGap (hid : id < word) :
    arrival (closeGap gap id) = if arrival gap < arrival id then arrival id - 1 else arrival id := by
  have hpos := arrival_pos gap
  rw [closeGap]
  split_ifs with hlater
  · rcases Nat.eq_zero_or_pos id with rfl | hid'
    · rfl
    · rw [arrival_of_pos hid'] at hlater ⊢
      rw [wrapSub_small hid' hid, arrival_of_pos (by omega)]
  · rfl

theorem closeGap_lt (hid : id < word) : closeGap gap id < word := by
  have hw : word = 18446744073709551616 := rfl
  rw [closeGap]
  split_ifs
  · exact Nat.mod_lt _ (by omega)
  · exact hid

theorem closeGap_inj (hgap : gap < word) (hid : id < word) (hid' : id' < word) (hne : id ≠ gap) (hne' : id' ≠ gap) :
    closeGap gap id = closeGap gap id' ↔ id = id' := by
  refine ⟨fun h => arrival_inj hid hid' ?_, fun h => by rw [h]⟩
  have hoff : arrival id ≠ arrival gap := fun he => hne (arrival_inj hid hgap he)
  have hoff' : arrival id' ≠ arrival gap := fun he => hne' (arrival_inj hid' hgap he)
  have he := congrArg arrival h
  rw [arrival_closeGap hid, arrival_closeGap hid'] at he
  split_ifs at he <;> omega

theorem closeGap_strictMono (hgap : gap < word) (hid : id < word) (hid' : id' < word) (hne : id ≠ gap)
    (hne' : id' ≠ gap) (hlt : arrival id < arrival id') : arrival (closeGap gap id) < arrival (closeGap gap id') := by
  have hoff : arrival id ≠ arrival gap := fun he => hne (arrival_inj hid hgap he)
  have hoff' : arrival id' ≠ arrival gap := fun he => hne' (arrival_inj hid' hgap he)
  rw [arrival_closeGap hid, arrival_closeGap hid']
  split_ifs <;> omega

end Arrival

def RestingOrder.renumber (gap : ℕ) (order : RestingOrder) : RestingOrder :=
  { order with orderId := closeGap gap order.orderId }

def without (gap : ℕ) (l : List RestingOrder) : List RestingOrder := l.filter (·.orderId ≠ gap)

theorem without_cons_self {gap : ℕ} {r : RestingOrder} (h : r.orderId = gap) (l : List RestingOrder) :
    without gap (r :: l) = without gap l := List.filter_cons_of_neg (by simp [h])

theorem without_cons_of_ne {gap : ℕ} {r : RestingOrder} (h : r.orderId ≠ gap) (l : List RestingOrder) :
    without gap (r :: l) = r :: without gap l := List.filter_cons_of_pos (decide_eq_true h)

section Enqueue

variable {sd : Side} {gap : ℕ} {r : RestingOrder} {l : List RestingOrder}

theorem without_enqueue_self (hl : Prioritized sd.better RestingOrder.price l) (h : r.orderId = gap) :
    without gap (enqueue sd.better RestingOrder.price r l) = without gap l := by
  unfold without
  rw [filter_enqueue_comm _ _ hl, if_neg]
  exact fun hkept => of_decide_eq_true hkept h

theorem without_enqueue_of_ne (hl : Prioritized sd.better RestingOrder.price l) (h : r.orderId ≠ gap) :
    without gap (enqueue sd.better RestingOrder.price r l) =
      enqueue sd.better RestingOrder.price r (without gap l) := by
  unfold without
  rw [filter_enqueue_comm _ _ hl, if_pos]
  exact decide_eq_true h

end Enqueue

theorem mem_without {gap : ℕ} {r : RestingOrder} {l : List RestingOrder} :
    r ∈ without gap l ↔ r ∈ l ∧ r.orderId ≠ gap := by
  rw [without, List.mem_filter, decide_eq_true_eq]

theorem sweep_without {sd : Side} {limit gap : ℕ} {l : List RestingOrder}
    (hl : Prioritized sd.better RestingOrder.price l) {quantity : ℕ}
    (hquiet : ∀ fill ∈ (sweep (sd.crosses limit) quantity l).fills, fill.resting.orderId ≠ gap) :
    sweep (sd.crosses limit) quantity (without gap l) =
      ⟨(sweep (sd.crosses limit) quantity l).fills, (sweep (sd.crosses limit) quantity l).unfilled,
        without gap (sweep (sd.crosses limit) quantity l).resting⟩ := by
  induction l generalizing quantity with
  | nil => rfl
  | cons r rs ih =>
    obtain ⟨hr, hrs⟩ := List.pairwise_cons.mp hl
    rw [sweep] at hquiet ⊢
    by_cases hid : r.orderId = gap
    · have hstop : ¬ (0 < quantity ∧ sd.crosses limit r.price = true) := by
        intro hgo
        rw [if_pos hgo] at hquiet
        split_ifs at hquiet <;> exact hquiet _ List.mem_cons_self hid
      rw [if_neg hstop, without_cons_self hid]
      -- the order left out stands before all that is behind it
      apply sweep_stop
      intro hpos r' hhead
      have hbehind := hr r' (List.mem_of_mem_filter (List.mem_of_head? hhead))
      exact Bool.eq_false_iff.mpr fun hc => hstop ⟨hpos, Side.crosses_of_not_better hc hbehind⟩
    · rw [without_cons_of_ne hid, sweep]
      split_ifs at hquiet ⊢
      · have hleft : ({ r with remainingQuantity := r.remainingQuantity - quantity } : RestingOrder).orderId ≠ gap :=
          hid
        exact congrArg (Swept.mk _ _) (without_cons_of_ne hleft rs).symm
      · rw [ih hrs (List.forall_mem_cons.mp hquiet).2]
      · exact congrArg (Swept.mk _ _) (without_cons_of_ne hid rs).symm

theorem sweep_of_no_fills {crosses : ℕ → Bool} {quantity : ℕ} {l : List RestingOrder}
    (h : (sweep crosses quantity l).fills = []) : sweep crosses quantity l = ⟨[], quantity, l⟩ := by
  cases l with
  | nil => rfl
  | cons r rs =>
    rw [sweep] at h ⊢
    split_ifs at h ⊢
    rfl

namespace Market

/-- The market that has never accepted the order with the id `gap`, beside the one that may have. -/
structure Without (gap : ℕ) (market market' : Market) : Prop where
  book : ∀ sd, market'.book sd = (without gap (market.book sd)).map (RestingOrder.renumber gap)
  accepted_eq : market'.accepted =
    if arrival gap ≤ market.accepted then market.accepted - 1 else market.accepted
  trades_eq : market'.trades = market.trades

def Arrived (market : Market) : Prop :=
  ∀ sd, ∀ r ∈ market.book sd, r.orderId < word ∧ arrival r.orderId ≤ market.accepted

theorem Arrived.nextId_fresh {market : Market} (h : market.Arrived) (hlt : market.accepted < word) :
    market.nextId ∉ market.ids := by
  rw [mem_ids]
  rintro ⟨sd, r, hr, he⟩
  have harrived := (h sd r hr).2
  rw [he, nextId, arrival_next hlt] at harrived
  omega

variable {symbolId gap : ℕ} {config : OrderBookConfig} {market market' : Market}

namespace Without

theorem nextId_eq (h : Without gap market market') (hlt : market.accepted < word) (hne : market.nextId ≠ gap)
    (hgap : gap < word) : market'.nextId = closeGap gap market.nextId := by
  have hnext : arrival market.nextId = market.accepted + 1 := arrival_next hlt
  have hword : market.nextId < word := Nat.mod_lt _ (by decide)
  have hoff : market.accepted + 1 ≠ arrival gap := fun he => hne (arrival_inj hword hgap (hnext.trans he))
  have hpos := arrival_pos gap
  have hle : market'.accepted < word := by
    rw [h.accepted_eq]
    split_ifs <;> omega
  apply arrival_inj (Nat.mod_lt _ (by decide)) (closeGap_lt hword)
  rw [arrival_closeGap hword, hnext, arrival_next hle, h.accepted_eq]
  split_ifs <;> omega

theorem swept_eq (h : Without gap market market') (hs : market.Sound config) {command : NewOrderCommand}
    (hquiet : ∀ fill ∈ (market.swept command).fills, fill.resting.orderId ≠ gap) :
    market'.swept command = Swept.map (RestingOrder.renumber gap) ⟨(market.swept command).fills,
      (market.swept command).unfilled, without gap (market.swept command).resting⟩ := by
  rw [swept, h.book]
  apply (sweep_map (f := RestingOrder.renumber gap) (fun _ _ => rfl) (fun _ _ => rfl) _).trans
  apply congrArg (Swept.map _)
  exact sweep_without (hs.prioritized _) hquiet

theorem accept (h : Without gap market market') (hs : market.Sound config) (hlt : market.accepted < word)
    (hgap : gap < word) {command : NewOrderCommand} (hne : market.nextId ≠ gap)
    (hquiet : ∀ fill ∈ (market.swept command).fills, fill.resting.orderId ≠ gap) :
    Without gap (market.accept command) (market'.accept command) := by
  have hswept := h.swept_eq hs hquiet
  have hunfilled : (market'.swept command).unfilled = (market.swept command).unfilled := by rw [hswept]; rfl
  constructor
  · intro sd
    rcases Side.eq_or_opposite command.side sd with rfl | rfl
    · rw [accept_side, accept_side, hunfilled, h.book, h.nextId_eq hlt hne hgap]
      split_ifs
      · rw [without_enqueue_of_ne (hs.prioritized _)]
        · symm
          apply map_enqueue
          exact fun _ => rfl
        · exact hne
      · rfl
    · rw [accept_opposite, accept_opposite, hswept]
      rfl
  · have hnext : arrival market.nextId = market.accepted + 1 := arrival_next hlt
    have hoff : market.accepted + 1 ≠ arrival gap :=
      fun he => hne (arrival_inj (Nat.mod_lt _ (by decide)) hgap (hnext.trans he))
    have hpos := arrival_pos gap
    change market'.accepted + 1 = if arrival gap ≤ market.accepted + 1 then market.accepted + 1 - 1
      else market.accepted + 1
    rw [h.accepted_eq]
    split_ifs <;> omega
  · change market'.trades + _ = market.trades + _
    rw [hswept, h.trades_eq]
    exact congrArg (market.trades + ·) (List.length_map _)

theorem accept_gap (h : Without gap market market') (hs : market.Sound config)
    (hlt : market.accepted < word) {command : NewOrderCommand} (he : market.nextId = gap)
    (hfills : (market.swept command).fills = []) : Without gap (market.accept command) market' := by
  have hnext : arrival gap = market.accepted + 1 := he ▸ arrival_next hlt
  have hswept : market.swept command = _ := sweep_of_no_fills hfills
  refine ⟨fun sd => ?_, ?_, ?_⟩
  · rw [h.book]
    congr 1
    rcases Side.eq_or_opposite command.side sd with rfl | rfl
    · rw [accept_side]
      split_ifs
      · symm
        exact without_enqueue_self (hs.prioritized _) he
      · rfl
    · rw [accept_opposite, hswept]
  · have haccepted := h.accepted_eq
    rw [if_neg (by omega)] at haccepted
    change _ = if arrival gap ≤ market.accepted + 1 then market.accepted + 1 - 1 else market.accepted + 1
    rw [if_pos (by omega), haccepted, Nat.add_sub_cancel]
  · change _ = market.trades + _
    rw [hfills, h.trades_eq]
    rfl

theorem resting_eq (h : Without gap market market') :
    market'.resting = (without gap market.resting).map (RestingOrder.renumber gap) := by
  rw [resting, resting, h.book, h.book, ← List.map_append, without, without, without, List.filter_append]

theorem ids_length_le (h : Without gap market market') : market'.ids.length ≤ market.ids.length := by
  rw [ids, ids, h.resting_eq, List.length_map, List.length_map, List.length_map]
  exact List.length_filter_le _ _

theorem arrived (h : Without gap market market') (ha : market.Arrived) (hgap : gap < word) : market'.Arrived := by
  intro sd r' hr'
  rw [h.book] at hr'
  obtain ⟨r, hr, rfl⟩ := List.mem_map.mp hr'
  obtain ⟨hr, hne⟩ := mem_without.mp hr
  obtain ⟨hword, hle⟩ := ha sd r hr
  have hoff : arrival r.orderId ≠ arrival gap := fun he => hne (arrival_inj hword hgap he)
  refine ⟨closeGap_lt hword, ?_⟩
  change arrival (closeGap gap r.orderId) ≤ _
  rw [arrival_closeGap hword, h.accepted_eq]
  split_ifs <;> omega

theorem lookup_eq (h : Without gap market market') (ha : market.Arrived) (hgap : gap < word) {id : ℕ}
    (hid : id < word) (hne : id ≠ gap) :
    market'.lookup (closeGap gap id) = (market.lookup id).map (RestingOrder.renumber gap) := by
  have hword : ∀ r ∈ market.resting, r.orderId < word := by
    intro r hr
    rcases List.mem_append.mp hr with hr | hr
    · exact (ha _ r hr).1
    · exact (ha _ r hr).1
  rw [lookup, h.resting_eq, List.find?_map, without, List.find?_filter]
  congr 1
  apply List.find?_congr
  intro r hr
  simp only [Function.comp_apply, RestingOrder.renumber]
  by_cases he : r.orderId = id
  · simp [he, hne]
  · by_cases heg : r.orderId = gap
    · simp [heg, hne.symm]
    · simp [he, heg, closeGap_inj hgap (hword r hr) hid heg hne]

theorem remove (h : Without gap market market') (ha : market.Arrived) (hgap : gap < word) {id : ℕ}
    (hid : id < word) (hne : id ≠ gap) : Without gap (market.remove id) (market'.remove (closeGap gap id)) := by
  refine ⟨fun sd => ?_, h.accepted_eq, h.trades_eq⟩
  change (market'.book sd).filter _ = _
  rw [h.book, List.filter_map, without, List.filter_filter]
  change _ = (List.filter _ (List.filter _ _)).map _
  rw [List.filter_filter]
  congr 1
  apply List.filter_congr
  intro r hr
  simp only [Function.comp_apply, RestingOrder.renumber]
  by_cases heg : r.orderId = gap
  · simp [heg]
  · simp [heg, closeGap_inj hgap (ha sd r hr).1 hid heg hne]

theorem remove_gap (h : Without gap market market') : Without gap (market.remove gap) market' := by
  refine ⟨fun sd => ?_, h.accepted_eq, h.trades_eq⟩
  change _ = (List.filter _ (List.filter _ _)).map _
  rw [h.book, List.filter_filter]
  simp only [Bool.and_self]
  rfl

theorem refusal_eq (h : Without gap market market') (ha : market.Arrived) (hgap : gap < word)
    (hlt : market.accepted < word) (hroom : market.ids.length ≤ config.maxActiveOrders) {command : NewOrderCommand}
    (hfull : market.refusal symbolId config command ≠ some .capacityExhausted) :
    market'.refusal symbolId config command = market.refusal symbolId config command := by
  have hlt' : market'.accepted < word := by
    rw [h.accepted_eq]
    split_ifs <;> omega
  have hfresh := ha.nextId_fresh hlt
  have hfresh' := (h.arrived ha hgap).nextId_fresh hlt'
  have hle := h.ids_length_le
  unfold refusal admitError at hfull ⊢
  rw [if_neg hfresh] at hfull ⊢
  rw [if_neg hfresh']
  split_ifs at hfull ⊢ <;> first | rfl | exact absurd rfl hfull | omega

end Without

end Market

end Sixchange

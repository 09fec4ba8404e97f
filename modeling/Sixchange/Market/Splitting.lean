import Sixchange.Market.Renumbering

namespace Sixchange

open PriorityList

def takenFrom (orderId : ℕ) (fills : List Fill) : ℕ :=
  (fills.map fun fill => if fill.resting.orderId = orderId then fill.quantity else 0).sum

theorem takenFrom_nil (orderId : ℕ) : takenFrom orderId [] = 0 := rfl

theorem takenFrom_cons (orderId : ℕ) (fill : Fill) (fills : List Fill) : takenFrom orderId (fill :: fills) =
    (if fill.resting.orderId = orderId then fill.quantity else 0) + takenFrom orderId fills := by
  rw [takenFrom, List.map_cons, List.sum_cons]
  rfl

section Sweep

variable {crosses : ℕ → Bool} {quantity : ℕ} {r : RestingOrder} (rs : List RestingOrder)

theorem sweep_within (hpos : 0 < quantity) (hcross : crosses r.price = true) (hlt : quantity < r.remainingQuantity) :
    sweep crosses quantity (r :: rs) = ⟨[⟨r, quantity, 0, r.remainingQuantity - quantity⟩], 0,
      { r with remainingQuantity := r.remainingQuantity - quantity } :: rs⟩ := by
  rw [sweep, if_pos ⟨hpos, hcross⟩, if_pos hlt]

theorem sweep_through (hpos : 0 < quantity) (hcross : crosses r.price = true) (hle : r.remainingQuantity ≤ quantity) :
    sweep crosses quantity (r :: rs) =
      let s := sweep crosses (quantity - r.remainingQuantity) rs
      ⟨⟨r, r.remainingQuantity, quantity - r.remainingQuantity, 0⟩ :: s.fills, s.unfilled, s.resting⟩ := by
  rw [sweep, if_pos ⟨hpos, hcross⟩, if_neg (Nat.not_lt_of_ge hle)]

theorem sweep_add (crosses : ℕ → Bool) (first second : ℕ) (l : List RestingOrder) :
    let s := sweep crosses first l
    let s' := sweep crosses second s.resting
    (sweep crosses (first + second) l).resting = s'.resting ∧
      (sweep crosses (first + second) l).unfilled = s.unfilled + s'.unfilled ∧
      ∀ orderId, takenFrom orderId (sweep crosses (first + second) l).fills =
        takenFrom orderId s.fills + takenFrom orderId s'.fills := by
  induction l generalizing first with
  | nil => exact ⟨rfl, rfl, fun _ => rfl⟩
  | cons r rs ih =>
    dsimp only at ih ⊢
    rcases Nat.eq_zero_or_pos first with rfl | hfirst
    · simp only [sweep_zero, Nat.zero_add, takenFrom_nil]
      exact ⟨trivial, trivial, fun _ => trivial⟩
    rcases Nat.eq_zero_or_pos second with rfl | hsecond
    · simp only [sweep_zero, Nat.add_zero, takenFrom_nil]
      exact ⟨trivial, trivial, fun _ => trivial⟩
    have hboth : 0 < first + second := by omega
    by_cases hcross : crosses r.price = true
    · rcases Nat.lt_or_ge first r.remainingQuantity with hlt | hge
      · have hleft : crosses (RestingOrder.price { r with remainingQuantity := r.remainingQuantity - first }) = true :=
          hcross
        rw [sweep_within rs hfirst hcross hlt]
        dsimp only
        rcases Nat.lt_or_ge (first + second) r.remainingQuantity with hlt' | hge'
        · -- both sweeps end inside the order
          rw [sweep_within rs hboth hcross hlt', sweep_within rs hsecond hleft (by dsimp only; omega)]
          refine ⟨by rw [Nat.sub_sub], rfl, fun orderId => ?_⟩
          simp only [takenFrom_cons, takenFrom_nil]
          split_ifs <;> omega
        · -- the second goes on with what the first leaves of the order
          have hrest : first + second - r.remainingQuantity = second - (r.remainingQuantity - first) := by omega
          rw [sweep_through rs hboth hcross hge', sweep_through rs hsecond hleft (by dsimp only; omega), hrest]
          refine ⟨rfl, (Nat.zero_add _).symm, fun orderId => ?_⟩
          simp only [takenFrom_cons, takenFrom_nil]
          split_ifs <;> omega
      · have hrest : first + second - r.remainingQuantity = first - r.remainingQuantity + second := by omega
        rw [sweep_through rs hboth hcross (by omega), sweep_through rs hfirst hcross hge, hrest]
        obtain ⟨hresting, hunfilled, htaken⟩ := ih (first - r.remainingQuantity)
        refine ⟨hresting, hunfilled, fun orderId => ?_⟩
        rw [takenFrom_cons, takenFrom_cons, htaken, Nat.add_assoc]
    · have hstop : ∀ quantity, sweep crosses quantity (r :: rs) = ⟨[], quantity, r :: rs⟩ := by
        intro quantity
        rw [sweep, if_neg fun hgo => hcross hgo.2]
      simp only [hstop]
      exact ⟨trivial, trivial, fun _ => rfl⟩

end Sweep

theorem no_fills_of_taken {crosses : ℕ → Bool} {quantity : ℕ} {l : List RestingOrder}
    (hl : ∀ r ∈ l, 0 < r.remainingQuantity)
    (htaken : ∀ orderId, takenFrom orderId (sweep crosses quantity l).fills = 0) :
    (sweep crosses quantity l).fills = [] := by
  cases hfills : (sweep crosses quantity l).fills with
  | nil => rfl
  | cons fill fills =>
    have hmem : fill ∈ (sweep crosses quantity l).fills := by
      rw [hfills]
      exact List.mem_cons_self
    have hpos := sweep_quantity_pos hl hmem
    have hzero := htaken fill.resting.orderId
    rw [hfills, takenFrom_cons, if_pos rfl] at hzero
    omega

def NewOrderCommand.terms (command : NewOrderCommand) : NewOrderCommand :=
  { command with seq := 0, quantity := 0, clientOrderId := 0, clientId := 0 }

structure Splits (whole first second : NewOrderCommand) : Prop where
  first_terms : first.terms = whole.terms
  second_terms : second.terms = whole.terms
  first_pos : 0 < first.quantity
  second_pos : 0 < second.quantity
  quantity_eq : whole.quantity = first.quantity + second.quantity
  fits : whole.quantity < word

section Terms

variable {command command' : NewOrderCommand} (h : command.terms = command'.terms)

include h

theorem NewOrderCommand.terms_side : command.side = command'.side := by
  simpa only [NewOrderCommand.terms] using congrArg NewOrderCommand.side h

theorem NewOrderCommand.terms_price : command.price = command'.price := by
  simpa only [NewOrderCommand.terms] using congrArg NewOrderCommand.price h

end Terms

namespace Market

variable {symbolId : ℕ} {config : OrderBookConfig} {market : Market} {whole first second : NewOrderCommand}

theorem refusal_terms (market : Market) (h : first.terms = whole.terms) (hfirst : 0 < first.quantity)
    (hwhole : 0 < whole.quantity) :
    market.refusal symbolId config first = market.refusal symbolId config whole := by
  have htype : first.orderType = whole.orderType := by
    simpa only [NewOrderCommand.terms] using congrArg NewOrderCommand.orderType h
  have htif : first.tif = whole.tif := by
    simpa only [NewOrderCommand.terms] using congrArg NewOrderCommand.tif h
  have hsymbol : first.symbolId = whole.symbolId := by
    simpa only [NewOrderCommand.terms] using congrArg NewOrderCommand.symbolId h
  rw [refusal, refusal, admitError, admitError, htype, htif, hsymbol, NewOrderCommand.terms_price h,
    if_neg (Nat.pos_iff_ne_zero.mp hfirst), if_neg (Nat.pos_iff_ne_zero.mp hwhole)]

def remainder (market : Market) (command : NewOrderCommand) : List RestingOrder :=
  if 0 < (market.swept command).unfilled then
    [{ incoming command market.nextId with remainingQuantity := (market.swept command).unfilled }]
  else []

theorem remainder_sum (market : Market) (command : NewOrderCommand) :
    ((market.remainder command).map RestingOrder.remainingQuantity).sum = (market.swept command).unfilled := by
  rw [remainder]
  split_ifs with hleft
  · exact List.sum_singleton
  · exact (Nat.eq_zero_of_not_pos hleft).symm

theorem level_accept (hs : market.Sound config) {command : NewOrderCommand} (h : command.terms = whole.terms) :
    ((market.accept command).book whole.side).filter (·.price = whole.price) =
      (market.book whole.side).filter (·.price = whole.price) ++ market.remainder command := by
  rw [← NewOrderCommand.terms_side h, ← NewOrderCommand.terms_price h, accept_side, remainder]
  split_ifs
  · rw [filter_enqueue _ (hs.prioritized _), if_pos]
    rfl
  · exact (List.append_nil _).symm

section Split

variable (h : Splits whole first second)

include h

theorem refusal_first (market : Market) :
    market.refusal symbolId config first = market.refusal symbolId config whole :=
  refusal_terms market h.first_terms h.first_pos (by rw [h.quantity_eq]; exact Nat.add_pos_left h.first_pos _)

theorem refusal_second (market : Market) :
    market.refusal symbolId config second = market.refusal symbolId config whole :=
  refusal_terms market h.second_terms h.second_pos (by rw [h.quantity_eq]; exact Nat.add_pos_left h.first_pos _)

theorem swept_parts (market : Market) : (market.swept whole).resting = ((market.accept first).swept second).resting ∧
    (market.swept whole).unfilled = (market.swept first).unfilled + ((market.accept first).swept second).unfilled ∧
    ∀ orderId, takenFrom orderId (market.swept whole).fills = takenFrom orderId (market.swept first).fills +
      takenFrom orderId ((market.accept first).swept second).fills := by
  have hsecond : (market.accept first).swept second = sweep (whole.side.opposite.crosses whole.price) second.quantity
      (market.swept first).resting := by
    rw [swept, NewOrderCommand.terms_side h.second_terms, NewOrderCommand.terms_price h.second_terms,
      ← NewOrderCommand.terms_side h.first_terms, accept_opposite]
  have hfirst : market.swept first = sweep (whole.side.opposite.crosses whole.price) first.quantity
      (market.book whole.side.opposite) := by
    rw [swept, NewOrderCommand.terms_side h.first_terms, NewOrderCommand.terms_price h.first_terms]
  rw [hsecond, hfirst, swept, h.quantity_eq]
  exact sweep_add _ _ _ _

theorem opposite_parts (market : Market) : ((market.accept first).accept second).book whole.side.opposite =
    (market.accept whole).book whole.side.opposite := by
  rw [accept_opposite, (swept_parts h market).1, ← NewOrderCommand.terms_side h.second_terms, accept_opposite]

theorem sound_first (hs : market.Sound config) (hprice : whole.price < config.priceLevelCount) :
    (market.accept first).Sound config := by
  apply hs.accept
  rwa [NewOrderCommand.terms_price h.first_terms]

theorem level_parts (hs : market.Sound config) (hprice : whole.price < config.priceLevelCount) :
    (((market.accept first).accept second).book whole.side).filter (·.price = whole.price) =
      (market.book whole.side).filter (·.price = whole.price) ++
        (market.remainder first ++ (market.accept first).remainder second) := by
  rw [level_accept (sound_first h hs hprice) h.second_terms, level_accept hs h.first_terms, List.append_assoc]

theorem best_parts (market : Market) (sd : Side) :
    (((market.accept first).accept second).book sd).head?.map RestingOrder.price =
      ((market.accept whole).book sd).head?.map RestingOrder.price := by
  rcases Side.eq_or_opposite whole.side sd with rfl | rfl
  · obtain ⟨-, hunfilled, -⟩ := swept_parts h market
    have hfirst : (market.accept first).book first.side = _ := accept_side first
    have hsecond : ((market.accept first).accept second).book second.side = _ := accept_side second
    rw [NewOrderCommand.terms_side h.first_terms] at hfirst
    rw [NewOrderCommand.terms_side h.second_terms, hfirst] at hsecond
    rw [hsecond, accept_side, hunfilled]
    have hprice : first.price = whole.price := NewOrderCommand.terms_price h.first_terms
    have hprice' : second.price = whole.price := NewOrderCommand.terms_price h.second_terms
    by_cases hleft : 0 < (market.swept first).unfilled
    · rw [if_pos hleft, if_pos (Nat.add_pos_left hleft _)]
      split_ifs
      · refine (head_key_enqueue_again ?_ _).trans (head_key_enqueue ?_ _)
        · exact hprice.trans hprice'.symm
        · exact hprice
      · apply head_key_enqueue
        exact hprice
    · rw [if_neg hleft, Nat.eq_zero_of_not_pos hleft, Nat.zero_add]
      split_ifs
      · apply head_key_enqueue
        exact hprice'
      · rfl
  · rw [opposite_parts h market]

end Split

end Market

end Sixchange

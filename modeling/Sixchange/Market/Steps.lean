import Sixchange.Market.Market

namespace Sixchange

open PriorityList
open scoped List

def RestingOrder.terms (order : RestingOrder) : RestingOrder := { order with remainingQuantity := 0 }

section Terms

variable {r r' : RestingOrder} (h : r.terms = r'.terms)

include h

theorem terms_orderId : r.orderId = r'.orderId := by
  simpa only [RestingOrder.terms] using congrArg RestingOrder.orderId h

theorem terms_side : r.side = r'.side := by simpa only [RestingOrder.terms] using congrArg RestingOrder.side h

theorem terms_price : r.price = r'.price := by
  simpa only [RestingOrder.terms] using congrArg RestingOrder.price h

theorem terms_clientId : r.clientId = r'.clientId := by
  simpa only [RestingOrder.terms] using congrArg RestingOrder.clientId h

theorem terms_clientOrderId : r.clientOrderId = r'.clientOrderId := by
  simpa only [RestingOrder.terms] using congrArg RestingOrder.clientOrderId h

end Terms

theorem eq_of_orderId {l : List RestingOrder} (hd : (l.map RestingOrder.orderId).Nodup) {o r : RestingOrder}
    (ho : o ∈ l) (hr : r ∈ l) (he : o.orderId = r.orderId) : o = r := List.inj_on_of_nodup_map hd ho hr he

theorem find?_perm {l l' : List RestingOrder} (hp : l ~ l') (hd : (l.map RestingOrder.orderId).Nodup)
    (id : ℕ) : l.find? (·.orderId = id) = l'.find? (·.orderId = id) := by
  cases hl : l.find? (·.orderId = id) with
  | none =>
    symm
    apply List.find?_eq_none.mpr
    exact fun r hr => List.find?_eq_none.mp hl r (hp.mem_iff.mpr hr)
  | some r =>
    have hr := List.mem_of_find?_eq_some hl
    have hid : r.orderId = id := by simpa using List.find?_some hl
    cases hl' : l'.find? (·.orderId = id) with
    | none => exact absurd (decide_eq_true hid) (List.find?_eq_none.mp hl' r (hp.mem_iff.mp hr))
    | some r' =>
      have hr' := hp.mem_iff.mpr (List.mem_of_find?_eq_some hl')
      have hid' : r'.orderId = id := by simpa using List.find?_some hl'
      rw [eq_of_orderId hd hr hr' (hid.trans hid'.symm)]

section Sweep

variable {crosses : ℕ → Bool}

theorem sweep_terms (quantity : ℕ) (l : List RestingOrder) :
    (sweep crosses quantity l).resting.map RestingOrder.terms <:+ l.map RestingOrder.terms := by
  induction l generalizing quantity with
  | nil => exact List.suffix_refl _
  | cons r rs ih =>
    rw [sweep]
    split_ifs
    · exact List.suffix_refl _
    · exact (ih _).trans (List.suffix_cons _ _)
    · exact List.suffix_refl _

theorem mem_sweep {quantity : ℕ} {l : List RestingOrder} {r : RestingOrder}
    (hr : r ∈ (sweep crosses quantity l).resting) : ∃ r' ∈ l, r'.terms = r.terms :=
  List.mem_map.mp ((sweep_terms quantity l).subset (List.mem_map_of_mem hr))

theorem sweep_positive {l : List RestingOrder} (hl : ∀ r ∈ l, 0 < r.remainingQuantity) (quantity : ℕ) :
    ∀ r ∈ (sweep crosses quantity l).resting, 0 < r.remainingQuantity := by
  induction l generalizing quantity with
  | nil => exact hl
  | cons r rs ih =>
    rw [sweep]
    split_ifs with _ hlt
    · intro x hx
      rcases List.mem_cons.mp hx with rfl | hx
      · exact Nat.sub_pos_of_lt hlt
      · exact hl x (List.mem_cons_of_mem r hx)
    · exact ih (fun x hx => hl x (List.mem_cons_of_mem r hx)) _
    · exact hl

theorem sweep_quantity_pos {l : List RestingOrder} (hl : ∀ r ∈ l, 0 < r.remainingQuantity) {quantity : ℕ}
    {fill : Fill} (h : fill ∈ (sweep crosses quantity l).fills) : 0 < fill.quantity := by
  induction l generalizing quantity with
  | nil => cases h
  | cons r rs ih =>
    rw [List.forall_mem_cons] at hl
    rw [sweep] at h
    split_ifs at h with hgo
    · rw [List.mem_singleton.mp h]
      exact hgo.1
    · rcases List.mem_cons.mp h with rfl | h
      · exact hl.1
      · exact ih hl.2 h
    · cases h

theorem sweep_fills_le (quantity : ℕ) (l : List RestingOrder) :
    (sweep crosses quantity l).fills.length ≤ l.countP fun r => crosses r.price := by
  induction l generalizing quantity with
  | nil => exact Nat.zero_le _
  | cons r rs ih =>
    rw [sweep, List.countP_cons]
    by_cases hgo : 0 < quantity ∧ crosses r.price = true
    · rw [if_pos hgo, if_pos hgo.2]
      split_ifs
      · exact Nat.le_add_left _ _
      · exact Nat.succ_le_succ (ih _)
    · rw [if_neg hgo]
      exact Nat.zero_le _

theorem sweep_removes {l : List RestingOrder} (hd : (l.map RestingOrder.orderId).Nodup) {quantity : ℕ}
    {earlier later : List Fill} {fill : Fill}
    (h : (sweep crosses quantity l).fills = earlier ++ fill :: later) (hlater : later ≠ []) :
    fill.restingRemaining = 0 ∧
      ∀ r ∈ (sweep crosses quantity l).resting, r.orderId ≠ fill.resting.orderId := by
  induction l generalizing quantity earlier with
  | nil => cases earlier <;> cases h
  | cons r rs ih =>
    obtain ⟨hr, hrs⟩ := List.nodup_cons.mp hd
    rw [sweep] at h ⊢
    split_ifs at h ⊢
    · cases earlier with
      | nil => exact absurd (List.cons.inj h).2.symm hlater
      | cons f fs => exact absurd (List.cons.inj h).2.symm (List.append_ne_nil_of_right_ne_nil _ (List.cons_ne_nil _ _))
    · cases earlier with
      | nil =>
        obtain ⟨rfl, -⟩ := List.cons.inj h
        refine ⟨rfl, fun x hx he => hr ?_⟩
        obtain ⟨x', hx', hterms⟩ := mem_sweep hx
        have hid : x'.orderId = r.orderId := (terms_orderId hterms).trans he
        rw [← hid]
        exact List.mem_map_of_mem hx'
      | cons f fs => exact ih hrs (List.cons.inj h).2
    · cases earlier <;> cases h

theorem sweep_exhausted {sd : Side} {limit quantity : ℕ} {l : List RestingOrder}
    (hl : Prioritized sd.better RestingOrder.price l)
    (hleft : 0 < (sweep (sd.crosses limit) quantity l).unfilled) :
    ∀ r ∈ (sweep (sd.crosses limit) quantity l).resting, sd.crosses limit r.price = false := by
  induction l generalizing quantity with
  | nil => exact fun r hr => absurd hr List.not_mem_nil
  | cons r rs ih =>
    obtain ⟨hr, hrs⟩ := List.pairwise_cons.mp hl
    rw [sweep] at hleft ⊢
    split_ifs at hleft ⊢ with hgo hlt
    · exact absurd hleft (Nat.lt_irrefl 0)
    · exact ih hrs hleft
    · have hstop : sd.crosses limit r.price = false := Bool.eq_false_iff.mpr (fun hc => hgo ⟨hleft, hc⟩)
      intro x hx
      rcases List.mem_cons.mp hx with rfl | hx
      · exact hstop
      · apply Bool.eq_false_iff.mpr
        intro hc
        rw [Side.crosses_of_not_better hc (hr x hx)] at hstop
        exact Bool.false_ne_true hstop.symm

end Sweep

namespace Market

variable {symbolId : ℕ} {config : OrderBookConfig} {market : Market}

/-- Everything a command can do: nothing, accept a new order, or remove a resting one. -/
theorem process_cases (symbolId : ℕ) (config : OrderBookConfig) (market : Market) (c : EngineCommand) :
    (∃ reason, market.process symbolId config c = (market, [rejection c reason])) ∨
    (∃ command, c = .newOrder command ∧ market.refusal symbolId config command = none ∧
      market.process symbolId config c = (market.accept command, market.acceptEvents command)) ∨
    (∃ command order, c = .cancelOrder command ∧ command.symbolId = symbolId ∧
      market.lookup command.orderId = some order ∧
      order.clientId = command.clientId ∧ order.clientOrderId = command.clientOrderId ∧
      market.process symbolId config c =
        (market.remove command.orderId, [withdrawn command.seq symbolId order])) := by
  cases c with
  | newOrder command =>
    cases hrefusal : market.refusal symbolId config command with
    | some reason => exact .inl ⟨reason, by rw [process, submit, hrefusal]⟩
    | none => exact .inr (.inl ⟨command, rfl, hrefusal, by rw [process, submit, hrefusal]⟩)
  | cancelOrder command =>
    rcases withdraw_cases symbolId market command with ⟨reason, he⟩ |
      ⟨order, hs, hlookup, hclient, hclientOrder, he⟩
    · exact .inl ⟨reason, he⟩
    · exact .inr (.inr ⟨command, order, rfl, hs, hlookup, hclient, hclientOrder, he⟩)
  | replaceOrder command => exact .inl ⟨_, rfl⟩

structure Sound (config : OrderBookConfig) (market : Market) : Prop where
  side_eq : ∀ sd, ∀ r ∈ market.book sd, r.side = sd
  price_lt : ∀ sd, ∀ r ∈ market.book sd, r.price < config.priceLevelCount
  quantity : ∀ sd, ∀ r ∈ market.book sd, 0 < r.remainingQuantity
  prioritized : ∀ sd, Prioritized sd.better RestingOrder.price (market.book sd)
  uncrossed : ∀ sd, ∀ r ∈ market.book sd, ∀ r' ∈ market.book sd.opposite,
    sd.opposite.crosses r.price r'.price = false

theorem Sound.empty : Sound config .empty := by
  refine ⟨?_, ?_, ?_, fun sd => List.Pairwise.nil, ?_⟩ <;> intro sd r hr <;> cases hr

theorem mem_swept {command : NewOrderCommand} {r : RestingOrder} (hr : r ∈ (market.swept command).resting) :
    ∃ r' ∈ market.book command.side.opposite, r'.terms = r.terms := mem_sweep hr

theorem accept_opposite (command : NewOrderCommand) :
    (market.accept command).book command.side.opposite = (market.swept command).resting :=
  settle_opposite (incoming command market.nextId)

theorem accept_side (command : NewOrderCommand) :
    (market.accept command).book command.side =
      if 0 < (market.swept command).unfilled then
        enqueue command.side.better RestingOrder.price
          { incoming command market.nextId with remainingQuantity := (market.swept command).unfilled }
          (market.book command.side)
      else market.book command.side :=
  settle_side (incoming command market.nextId)

theorem mem_accept_side {command : NewOrderCommand} {r : RestingOrder}
    (hr : r ∈ (market.accept command).book command.side) :
    r ∈ market.book command.side ∨ (0 < (market.swept command).unfilled ∧
      r = { incoming command market.nextId with remainingQuantity := (market.swept command).unfilled }) := by
  rw [accept_side] at hr
  split_ifs at hr with hleft
  · exact (List.mem_cons.mp ((enqueue_perm _ _).mem_iff.mp hr)).elim (fun he => .inr ⟨hleft, he⟩) .inl
  · exact .inl hr

theorem Sound.accept (h : Sound config market) {command : NewOrderCommand}
    (hprice : command.price < config.priceLevelCount) : Sound config (market.accept command) := by
  have hterms : ∀ r ∈ (market.swept command).resting, ∃ r' ∈ market.book command.side.opposite,
      r'.side = r.side ∧ r'.price = r.price := by
    intro r hr
    obtain ⟨r', hr', he⟩ := mem_swept hr
    exact ⟨r', hr', terms_side he, terms_price he⟩
  have hopposite : ∀ sd, sd = command.side ∨ sd = command.side.opposite := Side.eq_or_opposite _
  -- what is left of the order rests only once it has swept everything it crosses
  have hcross : ∀ r ∈ (market.accept command).book command.side,
      ∀ r' ∈ (market.accept command).book command.side.opposite,
        command.side.opposite.crosses r.price r'.price = false := by
    intro r hr r' hr'
    rw [accept_opposite] at hr'
    rcases mem_accept_side hr with hr | ⟨hleft, rfl⟩
    · obtain ⟨r'', hr'', -, hp⟩ := hterms r' hr'
      rw [← hp]
      exact h.uncrossed _ r hr r'' hr''
    · exact sweep_exhausted (h.prioritized _) hleft r' hr'
  constructor
  · intro sd r hr
    rcases hopposite sd with rfl | rfl
    · rcases mem_accept_side hr with hr | ⟨-, rfl⟩
      · exact h.side_eq _ r hr
      · rfl
    · rw [accept_opposite] at hr
      obtain ⟨r', hr', hs, -⟩ := hterms r hr
      exact hs ▸ h.side_eq _ r' hr'
  · intro sd r hr
    rcases hopposite sd with rfl | rfl
    · rcases mem_accept_side hr with hr | ⟨-, rfl⟩
      · exact h.price_lt _ r hr
      · exact hprice
    · rw [accept_opposite] at hr
      obtain ⟨r', hr', -, hp⟩ := hterms r hr
      exact hp ▸ h.price_lt _ r' hr'
  · intro sd r hr
    rcases hopposite sd with rfl | rfl
    · rcases mem_accept_side hr with hr | ⟨hleft, rfl⟩
      · exact h.quantity _ r hr
      · exact hleft
    · rw [accept_opposite] at hr
      exact sweep_positive (h.quantity _) _ r hr
  · intro sd
    rcases hopposite sd with rfl | rfl
    · rw [accept_side]
      split_ifs
      · exact enqueue_prioritized _ (h.prioritized _)
      · exact h.prioritized _
    · rw [accept_opposite]
      have hsub : (market.swept command).resting.map RestingOrder.terms <+
          (market.book command.side.opposite).map RestingOrder.terms := (sweep_terms _ _).sublist
      have hprice : ∀ r : RestingOrder, r.terms.price = r.price := fun r => rfl
      exact (Prioritized.map hprice).mp (((Prioritized.map hprice).mpr (h.prioritized _)).sublist hsub)
  · intro sd
    rcases hopposite sd with rfl | rfl
    · exact hcross
    · intro r hr r' hr'
      rw [Side.opposite_opposite] at hr' ⊢
      rw [Side.crosses_comm]
      exact hcross r' hr' r hr

theorem Sound.remove (h : Sound config market) (orderId : ℕ) : Sound config (market.remove orderId) := by
  have hsub : ∀ sd, (market.remove orderId).book sd <+ market.book sd := fun sd => List.filter_sublist
  exact ⟨fun sd r hr => h.side_eq sd r ((hsub sd).subset hr), fun sd r hr => h.price_lt sd r ((hsub sd).subset hr),
    fun sd r hr => h.quantity sd r ((hsub sd).subset hr), fun sd => (h.prioritized sd).sublist (hsub sd),
    fun sd r hr r' hr' => h.uncrossed sd r ((hsub sd).subset hr) r' ((hsub _).subset hr')⟩

theorem refusal_none {command : NewOrderCommand} :
    market.refusal symbolId config command = none ↔
      command.orderType = .limit ∧ command.tif = .gfd ∧
        admitError symbolId config market.ids market.nextId command = none := by
  rw [refusal]
  split_ifs with h₁ h₂ <;> simp_all

theorem Sound.process (h : Sound config market) (c : EngineCommand) :
    Sound config (market.process symbolId config c).1 := by
  rcases process_cases symbolId config market c with ⟨reason, he⟩ | ⟨command, -, hrefusal, he⟩ |
    ⟨command, order, -, -, -, -, -, he⟩ <;> rw [he]
  · exact h
  · exact h.accept (admitError_none.mp (refusal_none.mp hrefusal).2.2).2.2.1
  · exact h.remove _

/-- What holds of the ids while no id has been used twice. -/
structure Numbered (market : Market) : Prop where
  range : ∀ sd, ∀ r ∈ market.book sd, 1 ≤ r.orderId ∧ r.orderId ≤ market.accepted
  nodup : market.ids.Nodup
  increasing : ∀ sd, (market.book sd).Pairwise (fun a b => a.price = b.price → a.orderId < b.orderId)

theorem Numbered.empty : Numbered .empty :=
  ⟨fun _ _ hr => absurd hr List.not_mem_nil, List.nodup_nil, fun _ => List.Pairwise.nil⟩

theorem ids_perm (market : Market) (sd : Side) :
    market.ids ~ (market.book sd).map RestingOrder.orderId ++
      (market.book sd.opposite).map RestingOrder.orderId := by
  rw [ids, resting, List.map_append]
  cases sd
  · exact List.Perm.refl _
  · exact List.perm_append_comm

theorem mem_ids {id : ℕ} : id ∈ market.ids ↔ ∃ sd, ∃ r ∈ market.book sd, r.orderId = id := by
  simp only [ids, resting, List.map_append, List.mem_append, List.mem_map]
  constructor
  · rintro (h | h)
    exacts [⟨_, h⟩, ⟨_, h⟩]
  · rintro ⟨sd, h⟩
    cases sd
    exacts [Or.inl h, Or.inr h]

theorem Numbered.nextId_fresh (h : Numbered market) (hlt : market.accepted < word) :
    market.nextId ∉ market.ids := by
  rw [mem_ids]
  rintro ⟨sd, r, hr, he⟩
  have hrange := h.range sd r hr
  rw [he, nextId] at hrange
  rcases Nat.lt_or_ge (market.accepted + 1) word with hlt' | hge
  · rw [Nat.mod_eq_of_lt hlt'] at hrange
    omega
  · have : market.accepted + 1 = word := by omega
    rw [this, Nat.mod_self] at hrange
    omega

theorem nextId_small (hlt : market.accepted + 1 < word) : market.nextId = market.accepted + 1 :=
  Nat.mod_eq_of_lt hlt

theorem accept_ids (market : Market) (command : NewOrderCommand) :
    ∃ l, l <+~ market.ids ∧
      ((market.accept command).ids ~ l ∨ (market.accept command).ids ~ market.nextId :: l) := by
  let left := (market.book command.side).map RestingOrder.orderId ++
    (market.swept command).resting.map RestingOrder.orderId
  have hterms : ∀ l : List RestingOrder, l.map RestingOrder.orderId =
      (l.map RestingOrder.terms).map RestingOrder.orderId := fun l => by
    rw [List.map_map]
    rfl
  have hsub : left <+ (market.book command.side).map RestingOrder.orderId ++
      (market.book command.side.opposite).map RestingOrder.orderId := by
    refine List.Sublist.append_left ?_ _
    rw [hterms, hterms (market.book command.side.opposite)]
    exact ((sweep_terms _ _).sublist).map _
  refine ⟨left, hsub.subperm.trans (ids_perm market command.side).symm.subperm, ?_⟩
  have hperm := ids_perm (market.accept command) command.side
  rw [accept_opposite, accept_side] at hperm
  split_ifs at hperm
  · exact .inr (hperm.trans (((enqueue_perm _ _).map _).append_right _))
  · exact .inl hperm

theorem mem_accept_ids {command : NewOrderCommand} {id : ℕ} (h : id ∈ (market.accept command).ids) :
    id = market.nextId ∨ id ∈ market.ids := by
  obtain ⟨l, hl, hperm | hperm⟩ := accept_ids market command
  · exact .inr (hl.subset (hperm.mem_iff.mp h))
  · exact (List.mem_cons.mp (hperm.mem_iff.mp h)).imp_right fun hm => hl.subset hm

theorem accept_ids_length (market : Market) (command : NewOrderCommand) :
    (market.accept command).ids.length ≤ market.ids.length + 1 := by
  obtain ⟨l, hl, hperm | hperm⟩ := accept_ids market command
  · rw [hperm.length_eq]
    exact hl.length_le.trans (Nat.le_succ _)
  · rw [hperm.length_eq]
    exact Nat.succ_le_succ hl.length_le

theorem remove_ids (market : Market) (id : ℕ) : (market.remove id).ids <+ market.ids :=
  (List.filter_sublist.append List.filter_sublist).map _

theorem not_mem_remove_ids (market : Market) (id : ℕ) : id ∉ (market.remove id).ids := by
  rw [mem_ids]
  rintro ⟨sd, r, hr, he⟩
  exact of_decide_eq_true (List.mem_filter.mp hr).2 he

theorem ids_nodup_process (h : market.ids.Nodup) (c : EngineCommand) :
    (market.process symbolId config c).1.ids.Nodup := by
  rcases process_cases symbolId config market c with ⟨reason, he⟩ | ⟨command, -, hrefusal, he⟩ |
    ⟨command, order, -, -, -, -, -, he⟩ <;> rw [he]
  · exact h
  · have hfresh := (admitError_none.mp (refusal_none.mp hrefusal).2.2).2.2.2.2
    obtain ⟨l, ⟨l', hl', hsub⟩, hperm⟩ := accept_ids market command
    have hd : l.Nodup := hl'.nodup_iff.mp (h.sublist hsub)
    rcases hperm with hperm | hperm
    · exact hperm.nodup_iff.mpr hd
    · refine hperm.nodup_iff.mpr (List.nodup_cons.mpr ⟨fun hm => ?_, hd⟩)
      exact hfresh (hsub.subset (hl'.mem_iff.mpr hm))
  · exact h.sublist (remove_ids market command.orderId)

theorem Numbered.accept (h : Numbered market) (hs : Sound config market) {command : NewOrderCommand}
    (hlt : market.accepted + 1 < word) : Numbered (market.accept command) := by
  have hnext := nextId_small hlt
  have hopposite : ∀ r ∈ (market.swept command).resting, 1 ≤ r.orderId ∧ r.orderId ≤ market.accepted := by
    intro r hr
    obtain ⟨r', hr', he⟩ := mem_swept hr
    exact terms_orderId he ▸ h.range _ r' hr'
  constructor
  · intro sd r hr
    have haccepted : (market.accept command).accepted = market.accepted + 1 := rfl
    rcases Side.eq_or_opposite command.side sd with rfl | rfl
    · rcases mem_accept_side hr with hr | ⟨-, rfl⟩
      · have := h.range _ r hr
        omega
      · have : (incoming command market.nextId).orderId = market.accepted + 1 := hnext
        dsimp only
        omega
    · rw [accept_opposite] at hr
      have := hopposite r hr
      omega
  · obtain ⟨l, hl, hperm⟩ := accept_ids market command
    obtain ⟨l', hl', hsub⟩ := hl
    have hd : l.Nodup := hl'.nodup_iff.mp (h.nodup.sublist hsub)
    rcases hperm with hperm | hperm
    · exact hperm.nodup_iff.mpr hd
    · refine hperm.nodup_iff.mpr (List.nodup_cons.mpr ⟨fun hm => ?_, hd⟩)
      exact h.nextId_fresh (by omega) (hsub.subset (hl'.mem_iff.mpr hm))
  · intro sd
    rcases Side.eq_or_opposite command.side sd with rfl | rfl
    · rw [accept_side]
      split_ifs
      · apply enqueue_pairwise (hs.prioritized _) (h.increasing _)
        intro r hr
        have := (h.range _ r hr).2
        have : (incoming command market.nextId).orderId = market.accepted + 1 := hnext
        dsimp only
        omega
      · exact h.increasing _
    · rw [accept_opposite]
      have hsub : (market.swept command).resting.map RestingOrder.terms <+
          (market.book command.side.opposite).map RestingOrder.terms := (sweep_terms _ _).sublist
      have hold : ((market.book command.side.opposite).map RestingOrder.terms).Pairwise
          (fun a b => a.price = b.price → a.orderId < b.orderId) :=
        List.pairwise_map.mpr (h.increasing _)
      exact List.pairwise_map.mp (hold.sublist hsub)

theorem Numbered.remove (h : Numbered market) (orderId : ℕ) : Numbered (market.remove orderId) := by
  have hsub : ∀ sd, (market.remove orderId).book sd <+ market.book sd := fun sd => List.filter_sublist
  exact ⟨fun sd r hr => h.range sd r ((hsub sd).subset hr), h.nodup.sublist (remove_ids market orderId),
    fun sd => (h.increasing sd).sublist (hsub sd)⟩

theorem Numbered.process (h : Numbered market) (hs : Sound config market) (c : EngineCommand)
    (hlt : (market.process symbolId config c).1.accepted < word) :
    Numbered (market.process symbolId config c).1 := by
  rcases process_cases symbolId config market c with ⟨reason, he⟩ | ⟨command, -, hrefusal, he⟩ |
    ⟨command, order, -, -, -, -, -, he⟩ <;> rw [he] at hlt ⊢
  · exact h
  · exact h.accept hs hlt
  · exact h.remove _

theorem accepted_le (market : Market) (c : EngineCommand) :
    market.accepted ≤ (market.process symbolId config c).1.accepted := by
  rcases process_cases symbolId config market c with ⟨reason, he⟩ | ⟨command, -, hrefusal, he⟩ |
    ⟨command, order, -, -, -, -, -, he⟩ <;> rw [he]
  · exact Nat.le_succ _
  · exact Nat.le_refl _

end Market

end Sixchange

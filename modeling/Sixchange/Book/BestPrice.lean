import Sixchange.Book.SideInvariant
import Sixchange.Model.OrderBook

namespace Sixchange.OrderBook

open PriorityList

theorem scanDown_eq_some {levels : ℕ → PriceLevel} {t : ℕ} (ht : (levels t).empty = false) (removed : ℕ)
    (hlt : t < removed) (hempty : ∀ c, t < c → c < removed → (levels c).empty = true) :
    scanDown levels removed = some t := by
  induction removed with
  | zero => omega
  | succ removed ih =>
    rw [scanDown]
    by_cases he : t = removed
    · subst he
      simp [ht]
    · rw [if_pos (hempty removed (by omega) (by omega))]
      apply ih (by omega)
      intro c h₁ h₂
      exact hempty c h₁ (by omega)

theorem scanUp_eq_some {levels : ℕ → PriceLevel} {t : ℕ} (ht : (levels t).empty = false) (left start : ℕ)
    (hle : start ≤ t) (hlt : t < start + left)
    (hempty : ∀ c, start ≤ c → c < t → (levels c).empty = true) : scanUp levels left start = some t := by
  induction left generalizing start with
  | zero => omega
  | succ left ih =>
    rw [scanUp]
    by_cases he : t = start
    · subst he
      simp [ht]
    · rw [if_pos (hempty start (by omega) (by omega))]
      apply ih (start + 1) (by omega) (by omega)
      intro c h₁ h₂
      exact hempty c (by omega) h₂

def RestoresBest (sd : Side) (updateBest : OrderBook → ℕ → OrderBook) : Prop :=
  ∀ (book : OrderBook) (q : List Slot) (removed : ℕ),
    SideInv book.symbolId book.config.priceLevelCount book.orders.orders sd (book.sides sd).levels q →
    (book.sides sd).activeOrders = q.length →
    (∀ s ∈ q, sd.better removed (priceOf book.orders.orders s)) →
    updateBest book removed = book.setBest sd (q.head?.map (priceOf book.orders.orders))

theorem updateBestBidAfterRemoval_restores : RestoresBest .buy updateBestBidAfterRemoval := by
  intro book q removed hside hactive hbelow
  rw [updateBestBidAfterRemoval, hactive]
  cases q with
  | nil => rfl
  | cons x xs =>
    have hne : ((book.sides .buy).levels (book.orders.orders x).price).empty = false := by
      rw [Bool.eq_false_iff, Ne, hside.level_empty]
      exact fun h => h x (by simp) rfl
    rw [if_neg (by simp), scanDown_eq_some hne removed (hbelow x (by simp))]
    · rfl
    -- nothing is queued between the best order left and the removed level
    · intro c hc _
      rw [hside.level_empty]
      rintro s hs rfl
      rcases List.mem_cons.mp hs with rfl | hs
      · omega
      · exact (List.pairwise_cons.mp hside.prioritized).1 s hs hc

theorem updateBestAskAfterRemoval_restores : RestoresBest .sell updateBestAskAfterRemoval := by
  intro book q removed hside hactive hbelow
  rw [updateBestAskAfterRemoval, hactive]
  cases q with
  | nil => rfl
  | cons x xs =>
    have hne : ((book.sides .sell).levels (book.orders.orders x).price).empty = false := by
      rw [Bool.eq_false_iff, Ne, hside.level_empty]
      exact fun h => h x (by simp) rfl
    have hx : removed < (book.orders.orders x).price := hbelow x (by simp)
    have hlt := (hside.placed x (by simp)).price_lt
    rw [if_neg (by simp), scanUp_eq_some hne _ (removed + 1) hx (by omega)]
    · rfl
    · intro c _ hc
      rw [hside.level_empty]
      rintro s hs rfl
      rcases List.mem_cons.mp hs with rfl | hs
      · omega
      · exact (List.pairwise_cons.mp hside.prioritized).1 s hs hc

end Sixchange.OrderBook

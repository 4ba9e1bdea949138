import Mathlib.Logic.Function.Basic
import Mathlib.Tactic.Linarith

/-!
# `Lib.Ring` — rings of tagged entries

A producer numbers its entries `0, 1, 2, ...` and writes entry `i` to slot `i % d` of a ring of depth `d`. A
consumer that sees only the slots tells new entries from old ones by a tag: entries of even laps carry `true`,
entries of odd laps `false`. `Published lo hi` says that the entries from `lo` to `hi` are in the ring and that
the other slots carry the tag of the lap before, so the consumer, who has taken `lo` entries, can tell whether
there is another one (`Published.visible`).

A ring without a consumer overwrites its oldest entries. `Recent` says that it holds the last `d` entries of a
history; read backwards from the slot before the next one, they come most recent first (`Recent.read`).
-/

namespace Ring

/-- The tag of entry `i`. -/
def lap (d i : Nat) : Bool := i / d % 2 == 0

variable {α : Type} {d i j lo hi : Nat}

theorem lap_of_lt (h : i < d) : lap d i = true := by
  rw [lap, Nat.div_eq_of_lt h]
  rfl

theorem even_succ (n : Nat) : ((n + 1) % 2 == 0) = !(n % 2 == 0) := by
  rcases Nat.mod_two_eq_zero_or_one n with h | h
  · have h' : (n + 1) % 2 = 1 := by omega
    rw [h, h']
    rfl
  · have h' : (n + 1) % 2 = 0 := by omega
    rw [h, h']
    rfl

theorem lap_add (hd : 0 < d) : lap d (i + d) = !lap d i := by
  unfold lap
  rw [Nat.add_div_right _ hd]
  exact even_succ _

/-- After the last slot comes slot 0 of the next lap. -/
theorem succ_wrap (hd : 0 < d) (h : i % d + 1 = d) : (i + 1) % d = 0 ∧ lap d (i + 1) = !lap d i := by
  have hi := Nat.div_add_mod i d
  have hnext : i + 1 = d * (i / d + 1) := by
    rw [Nat.mul_add, Nat.mul_one]
    omega
  unfold lap
  rw [hnext, Nat.mul_div_cancel_left _ hd]
  exact ⟨Nat.mul_mod_right _ _, even_succ _⟩

/-- Before that the next slot is on the same lap. -/
theorem succ_next (hd : 0 < d) (h : i % d + 1 ≠ d) :
    (i + 1) % d = i % d + 1 ∧ lap d (i + 1) = lap d i := by
  have hlt : i % d + 1 < d := by
    have := Nat.mod_lt i hd
    omega
  have hi := Nat.div_add_mod i d
  have hnext : i + 1 = i % d + 1 + d * (i / d) := by omega
  refine ⟨?_, ?_⟩
  · rw [hnext, Nat.add_mul_mod_self_left]
    exact Nat.mod_eq_of_lt hlt
  · unfold lap
    rw [hnext, Nat.add_mul_div_left _ _ hd, Nat.div_eq_of_lt hlt, Nat.zero_add]

/-- The slot that follows a slot. -/
theorem succ_slot (hd : 0 < d) : (if i % d + 1 = d then 0 else i % d + 1) = (i + 1) % d := by
  by_cases h : i % d + 1 = d
  · rw [if_pos h, (succ_wrap hd h).1]
  · rw [if_neg h, (succ_next hd h).1]

/-- A window of `d` entries has one slot each. -/
theorem slot_inj (hi : lo ≤ i) (hi' : i < lo + d) (hj : lo ≤ j) (hj' : j < lo + d)
    (h : i % d = j % d) : i = j := by
  have h1 := Nat.div_add_mod i d
  have h2 := Nat.div_add_mod j d
  rcases Nat.lt_trichotomy (i / d) (j / d) with hlt | heq | hgt
  · have hmul := Nat.mul_le_mul_left d (show i / d + 1 ≤ j / d from hlt)
    rw [Nat.mul_add] at hmul
    omega
  · rw [heq] at h1
    omega
  · have hmul := Nat.mul_le_mul_left d (show j / d + 1 ≤ i / d from hgt)
    rw [Nat.mul_add] at hmul
    omega

/-- **Published entries**: the slots of `lo` to `hi` hold entries that satisfy `entry`, under the tag of
    their lap; the slots after them still carry the tag of the lap before. -/
structure Published (tag : α → Bool) (d : Nat) (mem : Nat → α) (entry : Nat → α → Prop) (lo hi : Nat) :
    Prop where
  lo_le : lo ≤ hi
  hi_le : hi ≤ lo + d
  live : ∀ i, lo ≤ i → i < hi → entry i (mem (i % d)) ∧ tag (mem (i % d)) = lap d i
  stale : ∀ i, hi ≤ i → i < lo + d → tag (mem (i % d)) = !lap d i

variable {tag : α → Bool} {mem mem' : Nat → α} {entry entry' : Nat → α → Prop}

/-- A ring whose tags are clear. -/
theorem published_zero (h : ∀ i, i < d → tag (mem i) = false) : Published tag d mem entry 0 0 where
  lo_le := Nat.le_refl _
  hi_le := Nat.zero_le _
  live i _ hi := absurd hi (Nat.not_lt_zero _)
  stale i _ hi := by
    rw [Nat.zero_add] at hi
    rw [Nat.mod_eq_of_lt hi, h i hi, lap_of_lt hi]
    rfl

namespace Published

/-- The producer writes the next entry. -/
theorem post (h : Published tag d mem entry lo hi) (hroom : hi < lo + d) {a : α} (ha : entry hi a)
    (htag : tag a = lap d hi) :
    Published tag d (Function.update mem (hi % d) a) entry lo (hi + 1) where
  lo_le := Nat.le_succ_of_le h.lo_le
  hi_le := hroom
  live i h1 h2 := by
    rcases Nat.lt_succ_iff_lt_or_eq.mp h2 with hlt | rfl
    · have hne : i % d ≠ hi % d := fun he =>
        Nat.ne_of_lt hlt (slot_inj h1 (Nat.lt_trans hlt hroom) h.lo_le hroom he)
      rw [Function.update_of_ne hne]
      exact h.live i h1 hlt
    · rw [Function.update_self]
      exact ⟨ha, htag⟩
  stale i h1 h2 := by
    have hne : i % d ≠ hi % d := fun he =>
      Nat.ne_of_gt h1 (slot_inj (Nat.le_trans h.lo_le (Nat.le_of_succ_le h1)) h2 h.lo_le hroom he)
    rw [Function.update_of_ne hne]
    exact h.stale i (Nat.le_of_succ_le h1) h2

/-- The consumer takes the oldest entry: its slot now counts for the next lap. -/
theorem take (h : Published tag d mem entry lo hi) (hlt : lo < hi) :
    Published tag d mem entry (lo + 1) hi where
  lo_le := hlt
  hi_le := by
    have := h.hi_le
    omega
  live i h1 h2 := h.live i (Nat.le_of_succ_le h1) h2
  stale i h1 h2 := by
    rcases Nat.lt_or_ge i (lo + d) with hin | hout
    · exact h.stale i h1 hin
    · obtain rfl : i = lo + d := by omega
      have hd : 0 < d := by
        have := h.hi_le
        omega
      rw [Nat.add_mod_right, lap_add hd, Bool.not_not]
      exact (h.live lo (Nat.le_refl _) hlt).2

/-- **The tag tells**: the next slot carries the tag of its lap iff its entry has been written. -/
theorem visible (h : Published tag d mem entry lo hi) (hd : 0 < d) :
    tag (mem (lo % d)) = lap d lo ↔ lo < hi := by
  constructor
  · intro htag
    by_contra hge
    have hstale := h.stale lo (Nat.le_of_not_lt hge) (Nat.lt_add_of_pos_right hd)
    rw [htag] at hstale
    exact absurd hstale (by cases lap d lo <;> decide)
  · intro hlt
    exact (h.live lo (Nat.le_refl _) hlt).2

theorem mono (h : Published tag d mem entry lo hi) (hmem : ∀ i, i < d → mem' i = mem i)
    (he : ∀ i a, lo ≤ i → i < hi → entry i a → entry' i a) : Published tag d mem' entry' lo hi where
  lo_le := h.lo_le
  hi_le := h.hi_le
  live i h1 h2 := by
    have hd : 0 < d := by
      have := h.hi_le
      omega
    rw [hmem _ (Nat.mod_lt _ hd)]
    obtain ⟨ha, htag⟩ := h.live i h1 h2
    exact ⟨he i _ h1 h2 ha, htag⟩
  stale i h1 h2 := by
    have hd : 0 < d := by
      have := h.lo_le
      omega
    rw [hmem _ (Nat.mod_lt _ hd)]
    exact h.stale i h1 h2

end Published

/-! ## Distances

The distance from slot `a` to slot `b` is how far one has to go forward, around the end if need be. A window of the
ring is a slot and the slots within a distance of it. -/

/-- The way forward from `a` to `b`. -/
def dist (d a b : Nat) : Nat := (b + d - a) % d

section Dist

variable {a b c s r : Nat}

theorem dist_lt (ha : a < d) : dist d a b < d := Nat.mod_lt _ (by omega)

/-- The distance leads from `a` to `b`, on this lap or on the next. -/
theorem add_dist (ha : a < d) (hb : b < d) : a + dist d a b = b ∨ a + dist d a b = b + d := by
  unfold dist
  by_cases h : a ≤ b
  · rw [show b + d - a = b - a + d by omega, Nat.add_mod_right, Nat.mod_eq_of_lt (by omega)]
    omega
  · rw [Nat.mod_eq_of_lt (by omega)]
    omega

/-- Distances add up as long as they stay within one lap. -/
theorem dist_add (ha : a < d) (hb : b < d) (hc : c < d) (h : dist d a b + dist d b c < d) :
    dist d a c = dist d a b + dist d b c := by
  have h1 := add_dist ha hb
  have h2 := add_dist hb hc
  have h3 := add_dist ha hc
  have h4 := dist_lt (b := c) ha
  omega

/-- What is left of the way to `c` at `b`. -/
theorem dist_sub (ha : a < d) (hb : b < d) (hc : c < d) (h : dist d a b ≤ dist d a c) :
    dist d a b + dist d b c = dist d a c := by
  have h1 := add_dist ha hb
  have h2 := add_dist hb hc
  have h3 := add_dist ha hc
  have h4 := dist_lt (b := c) hb
  have h5 := dist_lt (b := c) ha
  omega

theorem dist_succ (ha : a < d) (hb : b < d) (h : dist d a b + 1 < d) :
    dist d a (if b + 1 = d then 0 else b + 1) = dist d a b + 1 := by
  have hnext : (if b + 1 = d then 0 else b + 1) < d := by
    split <;> omega
  have h1 := add_dist ha hb
  have h2 := add_dist ha hnext
  have h3 := dist_lt (b := if b + 1 = d then 0 else b + 1) ha
  split at h2 <;> split at h3 <;> split <;> omega

/-- **Another origin.** If `s` sees `x` before `c`, it sees `x` before all that lies between them. -/
theorem dist_rebase_lt {x : Nat} (ha : a < d) (hs : s < d) (hx : x < d) (hb : b < d) (hc : c < d)
    (hxb : dist d a x < dist d a b) (hbc : dist d a b ≤ dist d a c) (hxc : dist d s x < dist d s c) :
    dist d s x < dist d s b := by
  have h1 := add_dist ha hx
  have h2 := add_dist ha hb
  have h3 := add_dist ha hc
  have h4 := add_dist hs hx
  have h5 := add_dist hs hb
  have h6 := add_dist hs hc
  have h7 := dist_lt (b := c) ha
  have h8 := dist_lt (b := c) hs
  omega

/-- Room in front of `c` stays there. -/
theorem dist_rebase_le (ha : a < d) (hs : s < d) (hb : b < d) (hc : c < d)
    (hbc : dist d a b + r ≤ dist d a c) (hsc : dist d s b ≤ dist d s c) : dist d s b + r ≤ dist d s c := by
  have h1 := add_dist ha hb
  have h2 := add_dist ha hc
  have h3 := add_dist hs hb
  have h4 := add_dist hs hc
  have h5 := dist_lt (b := c) ha
  have h6 := dist_lt (b := c) hs
  omega

end Dist

/-! ## The most recent entries -/

/-- **The recent part of a history**, which is listed most recent first: entry number `j` is in slot `j % d` as long as
    no `d` entries came after it, `head` is the next slot and `count` saturates at `d`. -/
structure Recent (d : Nat) (mem : Nat → α) (head count : Nat) (history : List α) : Prop where
  head_eq : head = history.length % d
  count_eq : count = min history.length d
  slot : ∀ j (hj : j < history.length), history.length ≤ j + d →
    mem (j % d) = history.get ⟨history.length - 1 - j, by omega⟩

theorem recent_nil (mem : Nat → α) : Recent d mem 0 0 [] where
  head_eq := (Nat.zero_mod d).symm
  count_eq := (Nat.zero_min d).symm
  slot j hj := absurd hj (Nat.not_lt_zero j)

namespace Recent

variable {head count : Nat} {history : List α}

/-- A new entry takes the slot of the oldest one. -/
theorem push (h : Recent d mem head count history) (a : α) :
    Recent d (Function.update mem head a) ((head + 1) % d) (if count < d then count + 1 else count) (a :: history) where
  head_eq := by rw [h.head_eq, Nat.mod_add_mod, List.length_cons]
  count_eq := by
    rw [h.count_eq, List.length_cons]
    split <;> omega
  slot j hj hrecent := by
    rw [List.length_cons] at hj hrecent
    rcases Nat.lt_succ_iff_lt_or_eq.mp hj with hlt | rfl
    · -- the older entries that count are in other slots
      have hne : j % d ≠ head := by
        rw [h.head_eq]
        exact fun he => Nat.ne_of_lt hlt
          (slot_inj (Nat.le_refl j) (by omega) (Nat.le_of_lt hlt) (by omega) he)
      rw [Function.update_of_ne hne, h.slot j hlt (by omega)]
      have hidx : (a :: history).length - 1 - j = history.length - 1 - j + 1 := by
        rw [List.length_cons]
        omega
      simp only [List.get_eq_getElem, hidx, List.getElem_cons_succ]
    · rw [h.head_eq, Function.update_self]
      simp

/-- **Reading backwards from the next slot.** -/
theorem read (h : Recent d mem head count history) {i : Nat} (hi : i < count) :
    history[i]? = some (mem ((head + d - 1 - i) % d)) := by
  have hcount := h.count_eq
  have hslot : (head + d - 1 - i) % d = (history.length - 1 - i) % d := by
    rw [h.head_eq, show history.length % d + d - 1 - i = history.length % d + (d - 1 - i) by omega, Nat.mod_add_mod,
      show history.length + (d - 1 - i) = history.length - 1 - i + d by omega, Nat.add_mod_right]
  rw [hslot, h.slot _ (by omega) (by omega), List.get_eq_getElem, List.getElem?_eq_getElem (by omega)]
  congr 2
  show i = history.length - 1 - (history.length - 1 - i)
  omega

/-- All of them. -/
theorem read_all (h : Recent d mem head count history) :
    (List.range count).map (fun i => mem ((head + d - 1 - i) % d)) = history.take d := by
  apply List.ext_getElem?
  intro i
  by_cases hi : i < count
  · have hid : i < d := by
      have := h.count_eq
      omega
    rw [List.getElem?_map, List.getElem?_range hi, List.getElem?_take_of_lt hid, h.read hi]
    rfl
  · have hlen : (history.take d).length ≤ i := by
      rw [List.length_take]
      have := h.count_eq
      omega
    rw [List.getElem?_eq_none hlen, List.getElem?_eq_none]
    simpa using hi

end Recent

end Ring

import Mathlib

/-!
# Reading a table page by page

A reader follows cursors through a table that is sorted by a key.  A cursor is a
position, which is a value of the key, and an offset into the rows tied there.
The database sorts each query anew, so rows with the same key may come back in
another order each time: `Descending` is one such order, and a reading has one
for each query.

`reads_perm_iff` is when a reading shows each row exactly once whatever these
orders are: when no page ends between two rows with the same key.

* `reads_of_noBreak`: the induction is on the rows that are left, and with no
  tie across the end of a page the offset stays zero.
* `exists_repeated`: the first page that ends inside a tie is followed by one
  that starts with its last row.
-/

namespace Lib

variable {α κ : Type} [LinearOrder κ]

/-- A way to sort by descending key: ties come in any order. -/
structure Descending (key : α → κ) where
  order : List α → List α
  perm : ∀ l, (order l).Perm l
  sorted : ∀ l, (order l).Pairwise fun a b => key b ≤ key a

/-- The size of a page and the cap on offsets. -/
structure Paging where
  size : ℕ
  cutoff : ℕ

structure Cursor (κ : Type) where
  position : Option κ
  offset : ℕ

/-- The cursor of the first page. -/
def Cursor.start : Cursor κ := ⟨none, 0⟩

/-- The row is at or after the position. -/
def Cursor.reaches (key : α → κ) (c : Cursor κ) (a : α) : Bool :=
  match c.position with
  | none => true
  | some v => key a ≤ v

section

variable (p : Paging) (key : α → κ)

/-- The rows of a page and the row after it, if there is one. -/
def fetch (o : Descending key) (rows : List α) (c : Cursor κ) : List α :=
  ((o.order (rows.filter (c.reaches key))).drop (min c.offset p.cutoff)).take (p.size + 1)

/-- How many rows at the end of a page are tied at a value. -/
def tiedAtEnd (v : κ) (page : List α) : ℕ := (page.reverse.takeWhile fun a => key a = v).length

/-- The cursor behind the page, when there is a row after it.  A page that is
tied from end to end adds its size to the offset it started from. -/
def nextCursor (c : Cursor κ) (fetched : List α) : Option (Cursor κ) :=
  match fetched[p.size]? with
  | none => none
  | some following =>
    let tied := tiedAtEnd key (key following) (fetched.take p.size)
    some ⟨some (key following), if tied = p.size then min c.offset p.cutoff + p.size else tied⟩

/-- Following the cursors until there is none shows the rows `seen`. -/
inductive Reads (rows : List α) : (ℕ → Descending key) → Cursor κ → List α → Prop
  | last {orders : ℕ → Descending key} {c : Cursor κ}
      (h : nextCursor p key c (fetch p key (orders 0) rows c) = none) :
      Reads rows orders c ((fetch p key (orders 0) rows c).take p.size)
  | next {orders : ℕ → Descending key} {c c' : Cursor κ} {seen : List α}
      (h : nextCursor p key c (fetch p key (orders 0) rows c) = some c')
      (rest : Reads rows (fun i => orders (i + 1)) c' seen) :
      Reads rows orders c ((fetch p key (orders 0) rows c).take p.size ++ seen)

end

/-- The keys in descending order. -/
def descKeys (key : α → κ) (rows : List α) : List κ := (rows.map key).insertionSort (· ≥ ·)

/-- No page ends between two rows with the same key. -/
def NoBreakInTie (size : ℕ) (keys : List κ) : Prop :=
  ∀ k v, 0 < k → keys[size * k - 1]? = some v → keys[size * k]? ≠ some v

/-! ## Sorted rows -/

/-- Sorting is by key, so the keys come back in one way only. -/
theorem map_key_of_sorted {key : α → κ} {rows l : List α} (hperm : l.Perm rows)
    (hsorted : l.Pairwise fun a b => key b ≤ key a) : l.map key = descKeys key rows := by
  have hl : (l.map key).Pairwise (· ≥ ·) := List.pairwise_map.mpr hsorted
  have hdesc : (descKeys key rows).Pairwise (· ≥ ·) := List.pairwise_insertionSort _ _
  refine List.Perm.eq_of_pairwise (fun a b _ _ hab hba => le_antisymm hba hab) hl hdesc ?_
  exact (hperm.map key).trans (List.perm_insertionSort _ _).symm

/-- In a sorted list, the rows from a value on are a suffix. -/
theorem filter_le_of_sorted {key : α → κ} {l m : List α} {v : κ} (hl : ∀ a ∈ l, v < key a)
    (hm : ∀ a ∈ m, key a ≤ v) : (l ++ m).filter (fun a => key a ≤ v) = m := by
  have hnone : l.filter (fun a => key a ≤ v) = [] := by
    rw [List.filter_eq_nil_iff]
    intro a ha
    simpa using hl a ha
  have hall : m.filter (fun a => key a ≤ v) = m := by
    rw [List.filter_eq_self]
    intro a ha
    simpa using hm a ha
  rw [List.filter_append, hnone, hall, List.nil_append]

/-- A page that ends before a new value ends without a tie. -/
theorem tiedAtEnd_append_single {key : α → κ} {v : κ} {l : List α} {x : α} (h : key x ≠ v) :
    tiedAtEnd key v (l ++ [x]) = 0 := by
  unfold tiedAtEnd
  rw [List.reverse_append, List.reverse_singleton, List.singleton_append, List.takeWhile_cons]
  simp [h]

/-- A list with a row after its first `size` ones. -/
theorem exists_split {l : List α} {size : ℕ} (hsize : 0 < size) (h : size < l.length) :
    ∃ init x y rest, l = (init ++ [x]) ++ y :: rest ∧ (init ++ [x]).length = size := by
  have hdrop : l.drop size ≠ [] := by
    rw [Ne, List.drop_eq_nil_iff]
    omega
  have htake : l.take size ≠ [] := by
    rw [Ne, List.take_eq_nil_iff]
    rintro (hzero | hnil)
    · omega
    · rw [hnil, List.length_nil] at h
      omega
  obtain ⟨y, rest, hyrest⟩ := List.exists_cons_of_ne_nil hdrop
  refine ⟨(l.take size).dropLast, (l.take size).getLast htake, y, rest, ?_, ?_⟩
  · rw [List.dropLast_append_getLast, ← hyrest, List.take_append_drop]
  · rw [List.dropLast_append_getLast, List.length_take]
    omega

/-- What a query finds, from a cursor without offset. -/
theorem fetch_of_split {p : Paging} {key : α → κ} {o : Descending key} {rows : List α}
    {position : Option κ} {page rest : List α} {y : α}
    (h : o.order (rows.filter ((⟨position, 0⟩ : Cursor κ).reaches key)) = page ++ y :: rest)
    (hpage : page.length = p.size) :
    fetch p key o rows ⟨position, 0⟩ = page ++ [y] := by
  unfold fetch
  rw [h, Nat.zero_min, List.drop_zero, List.take_append, hpage]
  have hlong : page.take (p.size + 1) = page := List.take_of_length_le (by omega)
  rw [hlong]
  simp

theorem nextCursor_append {p : Paging} {key : α → κ} {c : Cursor κ} {page : List α} {y : α}
    (hpage : page.length = p.size) : nextCursor p key c (page ++ [y]) =
      some ⟨some (key y), if tiedAtEnd key (key y) page = p.size then min c.offset p.cutoff + p.size
        else tiedAtEnd key (key y) page⟩ := by
  have hget : (page ++ [y])[p.size]? = some y := by
    rw [List.getElem?_append_right (by omega), hpage]
    simp
  have htake : (page ++ [y]).take p.size = page := by
    rw [← hpage]
    exact List.take_left
  unfold nextCursor
  rw [hget]
  dsimp only
  rw [htake]

/-! ## Without a tie across the end of a page -/

/-- The first page and the rest of a sorted list that is longer than a page. -/
theorem noBreak_split {key : α → κ} {size : ℕ} {rows init rest : List α} {x y : α}
    (hsize : (init ++ [x]).length = size) (hpos : 0 < size)
    (hperm : ((init ++ [x]) ++ y :: rest).Perm rows)
    (hsorted : ((init ++ [x]) ++ y :: rest).Pairwise fun a b => key b ≤ key a)
    (h : NoBreakInTie size (descKeys key rows)) :
    key y < key x ∧ NoBreakInTie size (descKeys key (y :: rest)) := by
  have hkeys : descKeys key rows = ((init ++ [x]).map key) ++ (y :: rest).map key := by
    rw [← map_key_of_sorted hperm hsorted, List.map_append]
  have hlen : ((init ++ [x]).map key).length = size := by rw [List.length_map, hsize]
  have hrest : descKeys key (y :: rest) = (y :: rest).map key :=
    (map_key_of_sorted (.refl _) (List.pairwise_append.mp hsorted).2.1).symm
  constructor
  · have hle : key y ≤ key x :=
      (List.pairwise_append.mp hsorted).2.2 x (by simp) y List.mem_cons_self
    refine lt_of_le_of_ne hle fun heq => ?_
    have hinit : init.length = size - 1 := by
      rw [List.length_append, List.length_singleton] at hsize
      omega
    refine h 1 (key x) one_pos ?_ ?_
    · rw [hkeys, mul_one, List.getElem?_append_left (by omega), List.map_append, ← hinit]
      simp
    · rw [hkeys, mul_one, List.getElem?_append_right (by omega), hlen]
      simp [heq]
  · intro k v hk hbefore hafter
    have hbound : 0 < size * k := Nat.mul_pos hpos hk
    refine h (k + 1) v (by omega) ?_ ?_
    · rw [hkeys, List.getElem?_append_right (by rw [hlen, mul_add]; omega), hlen]
      rw [hrest] at hbefore
      rw [← hbefore]
      congr 1
      rw [mul_add]
      omega
    · rw [hkeys, List.getElem?_append_right (by rw [hlen, mul_add]; omega), hlen]
      rw [hrest] at hafter
      rw [← hafter]
      congr 1
      rw [mul_add]
      omega

/-- A short list is one page. -/
theorem fetch_of_short {p : Paging} {key : α → κ} {o : Descending key} {rows : List α}
    {position : Option κ}
    (h : (rows.filter ((⟨position, 0⟩ : Cursor κ).reaches key)).length ≤ p.size) :
    nextCursor p key ⟨position, 0⟩ (fetch p key o rows ⟨position, 0⟩) = none ∧
      (fetch p key o rows ⟨position, 0⟩).take p.size =
        o.order (rows.filter ((⟨position, 0⟩ : Cursor κ).reaches key)) := by
  have hlen := (o.perm (rows.filter ((⟨position, 0⟩ : Cursor κ).reaches key))).length_eq
  have hfetch : fetch p key o rows ⟨position, 0⟩ =
      o.order (rows.filter ((⟨position, 0⟩ : Cursor κ).reaches key)) := by
    unfold fetch
    rw [Nat.zero_min, List.drop_zero]
    exact List.take_of_length_le (by omega)
  constructor
  · unfold nextCursor
    rw [hfetch, List.getElem?_eq_none (by omega)]
  · rw [hfetch]
    exact List.take_of_length_le (by omega)

/-- The rows behind a page, as the next cursor finds them. -/
theorem perm_behind_page {key : α → κ} {rows init rest : List α} {x y : α} {c : Cursor κ}
    (hperm : ((init ++ [x]) ++ y :: rest).Perm (rows.filter (c.reaches key)))
    (hsorted : ((init ++ [x]) ++ y :: rest).Pairwise fun a b => key b ≤ key a)
    (hlt : key y < key x) :
    (rows.filter ((⟨some (key y), 0⟩ : Cursor κ).reaches key)).Perm (y :: rest) := by
  obtain ⟨hpage, htail, hacross⟩ := List.pairwise_append.mp hsorted
  have habove : ∀ a ∈ init ++ [x], key y < key a := by
    intro a ha
    rcases List.mem_append.mp ha with hinit | hx
    · exact lt_of_lt_of_le hlt ((List.pairwise_append.mp hpage).2.2 a hinit x (by simp))
    · rw [List.mem_singleton] at hx
      rw [hx]
      exact hlt
  have hbelow : ∀ a ∈ y :: rest, key a ≤ key y := by
    intro a ha
    rcases List.mem_cons.mp ha with rfl | ha
    · exact le_rfl
    · exact (List.pairwise_cons.mp htail).1 a ha
  -- the value is one that the cursor of the page reaches
  have hreaches : rows.filter ((⟨some (key y), 0⟩ : Cursor κ).reaches key) =
      (rows.filter (c.reaches key)).filter fun a => key a ≤ key y := by
    have hy : c.reaches key y = true := (List.mem_filter.mp (hperm.mem_iff.mp (by simp))).2
    rw [List.filter_filter]
    refine List.filter_congr fun a _ => ?_
    unfold Cursor.reaches at hy ⊢
    cases hposition : c.position with
    | none => simp
    | some v =>
      rw [hposition] at hy
      have hyv : key y ≤ v := by simpa using hy
      by_cases ha : key a ≤ key y
      · simp [ha, ha.trans hyv]
      · simp [ha]
  rw [hreaches]
  have hfilter := hperm.symm.filter fun a => key a ≤ key y
  rwa [filter_le_of_sorted habove hbelow] at hfilter

/-- **Without a tie across the end of a page, each row is shown once.** -/
theorem reads_of_noBreak {p : Paging} {key : α → κ} {rows : List α} (hsize : 0 < p.size) :
    ∀ (n : ℕ) (orders : ℕ → Descending key) (position : Option κ),
      (rows.filter ((⟨position, 0⟩ : Cursor κ).reaches key)).length = n →
      NoBreakInTie p.size (descKeys key (rows.filter ((⟨position, 0⟩ : Cursor κ).reaches key))) →
      ∃ seen, Reads p key rows orders ⟨position, 0⟩ seen ∧
        seen.Perm (rows.filter ((⟨position, 0⟩ : Cursor κ).reaches key)) := by
  intro n
  induction n using Nat.strong_induction_on with
  | _ n ih =>
    intro orders position hlength hbreak
    have hperm := (orders 0).perm (rows.filter ((⟨position, 0⟩ : Cursor κ).reaches key))
    have hsorted := (orders 0).sorted (rows.filter ((⟨position, 0⟩ : Cursor κ).reaches key))
    by_cases hshort : (rows.filter ((⟨position, 0⟩ : Cursor κ).reaches key)).length ≤ p.size
    · obtain ⟨hnone, hpage⟩ := fetch_of_short (o := orders 0) hshort
      refine ⟨_, .last hnone, ?_⟩
      rw [hpage]
      exact hperm
    · rw [not_le, ← hperm.length_eq] at hshort
      obtain ⟨init, x, y, rest, hsplit, hlen⟩ := exists_split hsize hshort
      have hfetch := fetch_of_split hsplit hlen
      rw [hsplit] at hperm hsorted
      obtain ⟨hlt, hbreak'⟩ := noBreak_split hlen hsize hperm hsorted hbreak
      have hbehind := perm_behind_page hperm hsorted hlt
      have hnext := @nextCursor_append _ _ _ p key ⟨position, 0⟩ (init ++ [x]) y hlen
      rw [tiedAtEnd_append_single hlt.ne', if_neg hsize.ne, ← hfetch] at hnext
      have hkeys : descKeys key (y :: rest) =
          descKeys key (rows.filter ((⟨some (key y), 0⟩ : Cursor κ).reaches key)) := by
        rw [← map_key_of_sorted hbehind.symm (List.pairwise_append.mp hsorted).2.1]
        exact (map_key_of_sorted (.refl _) (List.pairwise_append.mp hsorted).2.1).symm
      have hfewer : (rows.filter ((⟨some (key y), 0⟩ : Cursor κ).reaches key)).length < n := by
        rw [hbehind.length_eq, ← hlength, ← hperm.length_eq, List.length_append, hlen]
        omega
      rw [hkeys] at hbreak'
      obtain ⟨seen, hreads, hseen⟩ :=
        ih _ hfewer (fun i => orders (i + 1)) (some (key y)) rfl hbreak'
      refine ⟨_, .next hnext hreads, ?_⟩
      have hpage : (fetch p key (orders 0) rows ⟨position, 0⟩).take p.size = init ++ [x] := by
        rw [hfetch, ← hlen]
        exact List.take_left
      rw [hpage]
      exact ((hseen.trans hbehind).append_left _).trans hperm

/-! ## With a tie across the end of a page -/

theorem tiedAtEnd_append_tied {key : α → κ} {v : κ} {l : List α} {x : α} (h : key x = v) :
    tiedAtEnd key v (l ++ [x]) = tiedAtEnd key v l + 1 := by
  unfold tiedAtEnd
  rw [List.reverse_append, List.reverse_singleton, List.singleton_append, List.takeWhile_cons]
  simp [h]

/-- The rows above a value, and the rows tied at it. -/
theorem exists_tied {key : α → κ} {v : κ} (l : List α)
    (hsorted : l.Pairwise fun a b => key b ≤ key a) (hge : ∀ a ∈ l, v ≤ key a) :
    ∃ above tied, l = above ++ tied ∧ (∀ a ∈ above, v < key a) ∧ (∀ a ∈ tied, key a = v) ∧
      tied.length = tiedAtEnd key v l := by
  induction l using List.reverseRecOn with
  | nil => exact ⟨[], [], rfl, by simp, by simp, rfl⟩
  | append_singleton l z ih =>
    obtain ⟨hl, -, hlast⟩ := List.pairwise_append.mp hsorted
    by_cases hz : key z = v
    · obtain ⟨above, tied, hsplit, habove, htied, hlen⟩ :=
        ih hl fun a ha => hge a (List.mem_append_left _ ha)
      refine ⟨above, tied ++ [z], by rw [hsplit, List.append_assoc], habove, ?_, ?_⟩
      · intro a ha
        rcases List.mem_append.mp ha with ha | ha
        · exact htied a ha
        · rw [List.mem_singleton] at ha
          rw [ha, hz]
      · rw [tiedAtEnd_append_tied hz, List.length_append, hlen, List.length_singleton]
    · have hlt : v < key z := lt_of_le_of_ne (hge z (by simp)) (Ne.symm hz)
      refine ⟨l ++ [z], [], by simp, ?_, by simp, (tiedAtEnd_append_single hz).symm⟩
      intro a ha
      rcases List.mem_append.mp ha with ha | ha
      · exact lt_of_lt_of_le hlt (hlast a ha z (by simp))
      · rw [List.mem_singleton] at ha
        rw [ha]
        exact hlt

/-- When the first page ends without a tie, a later one does. -/
theorem noBreak_of_split {key : α → κ} {size : ℕ} {rows init rest : List α} {x y : α}
    (hsize : (init ++ [x]).length = size) (hpos : 0 < size)
    (hperm : ((init ++ [x]) ++ y :: rest).Perm rows)
    (hsorted : ((init ++ [x]) ++ y :: rest).Pairwise fun a b => key b ≤ key a)
    (hlt : key y < key x) (h : NoBreakInTie size (descKeys key (y :: rest))) :
    NoBreakInTie size (descKeys key rows) := by
  have hkeys : descKeys key rows = ((init ++ [x]).map key) ++ (y :: rest).map key := by
    rw [← map_key_of_sorted hperm hsorted, List.map_append]
  have hlen : ((init ++ [x]).map key).length = size := by rw [List.length_map, hsize]
  have hrest : descKeys key (y :: rest) = (y :: rest).map key :=
    (map_key_of_sorted (.refl _) (List.pairwise_append.mp hsorted).2.1).symm
  have hinit : init.length = size - 1 := by
    rw [List.length_append, List.length_singleton] at hsize
    omega
  intro k v hk hbefore hafter
  obtain ⟨j, rfl⟩ : ∃ j, k = j + 1 := ⟨k - 1, by omega⟩
  rw [hkeys, List.getElem?_append_right (by rw [hlen, mul_add]; omega), hlen] at hafter
  by_cases hj : j = 0
  · subst hj
    rw [hkeys, zero_add, mul_one, List.getElem?_append_left (by omega), List.map_append,
      ← hinit] at hbefore
    have hx : key x = v := by simpa using hbefore
    have hy : key y = v := by simpa using hafter
    exact absurd (hy.trans hx.symm) hlt.ne
  · have hbound : 0 < size * j := Nat.mul_pos hpos (by omega)
    rw [hkeys, List.getElem?_append_right (by rw [hlen, mul_add]; omega), hlen] at hbefore
    refine h j v (by omega) ?_ ?_
    · rw [hrest, ← hbefore]
      congr 1
      rw [mul_add]
      omega
    · rw [hrest, ← hafter]
      congr 1
      rw [mul_add]
      omega

/-- The rows of a page are shown. -/
theorem Reads.page_subset {p : Paging} {key : α → κ} {rows : List α}
    {orders : ℕ → Descending key} {c : Cursor κ} {seen : List α} (h : Reads p key rows orders c seen)
    {a : α} (ha : a ∈ (fetch p key (orders 0) rows c).take p.size) : a ∈ seen := by
  cases h with
  | last => exact ha
  | next => exact List.mem_append_left _ ha

/-- A page that is followed by another. -/
theorem Reads.of_next {p : Paging} {key : α → κ} {rows : List α} {orders : ℕ → Descending key}
    {c c' : Cursor κ} {seen : List α} (h : Reads p key rows orders c seen)
    (hnext : nextCursor p key c (fetch p key (orders 0) rows c) = some c') :
    ∃ seen', seen = (fetch p key (orders 0) rows c).take p.size ++ seen' ∧
      Reads p key rows (fun i => orders (i + 1)) c' seen' := by
  cases h with
  | last hnone =>
    rw [hnone] at hnext
    cases hnext
  | next hsome hrest =>
    obtain rfl := Option.some.inj (hsome.symm.trans hnext)
    exact ⟨_, rfl, hrest⟩

section

variable [DecidableEq α]

/-- By descending key, and by the place in a list where keys are equal. -/
def Before (key : α → κ) (l : List α) (a b : α) : Prop :=
  key b < key a ∨ key a = key b ∧ l.idxOf a ≤ l.idxOf b

instance (key : α → κ) (l : List α) : DecidableRel (Before key l) := fun a b => by
  unfold Before
  exact inferInstance

theorem pairwise_before (key : α → κ) (l rows : List α) :
    (rows.insertionSort (Before key l)).Pairwise (Before key l) := by
  have htotal : Std.Total (Before key l) := ⟨fun a b => by
    unfold Before
    rcases lt_trichotomy (key a) (key b) with h | h | h
    · exact .inr (.inl h)
    · rcases le_total (l.idxOf a) (l.idxOf b) with hle | hle
      · exact .inl (.inr ⟨h, hle⟩)
      · exact .inr (.inr ⟨h.symm, hle⟩)
    · exact .inl (.inl h)⟩
  have htrans : IsTrans _ (Before key l) := ⟨fun a b c hab hbc => by
    unfold Before at hab hbc ⊢
    rcases hab with hab | ⟨hab, hle⟩
    · rcases hbc with hbc | ⟨hbc, -⟩
      · exact .inl (hbc.trans hab)
      · exact .inl (hbc ▸ hab)
    · rcases hbc with hbc | ⟨hbc, hle'⟩
      · exact .inl (hab ▸ hbc)
      · exact .inr ⟨hab.trans hbc, hle.trans hle'⟩⟩
  exact List.pairwise_insertionSort (Before key l) rows

/-- The order that breaks ties as a given list does. -/
def Descending.byList (key : α → κ) (l : List α) : Descending key where
  order := fun rows => rows.insertionSort (Before key l)
  perm := List.perm_insertionSort _
  sorted := fun rows => (pairwise_before key l rows).imp fun {a b} hab => by
    rcases hab with hlt | ⟨heq, -⟩
    · exact hlt.le
    · exact heq.symm.le

/-- A sorted list without repetition is how its own order sorts it, and any part
of it. -/
theorem byList_order {key : α → κ} {l rows : List α} {p : α → Bool} (hnodup : l.Nodup)
    (hsorted : l.Pairwise fun a b => key b ≤ key a) (hperm : rows.Perm (l.filter p)) :
    (Descending.byList key l).order rows = l.filter p := by
  have hbefore : l.Pairwise (Before key l) := by
    rw [List.pairwise_iff_getElem] at hsorted ⊢
    intro i j hi hj hij
    rcases (hsorted i j hi hj hij).lt_or_eq with hlt | heq
    · exact .inl hlt
    · right
      rw [hnodup.idxOf_getElem, hnodup.idxOf_getElem]
      exact ⟨heq.symm, hij.le⟩
  have hsame : ((Descending.byList key l).order rows).Perm (l.filter p) :=
    ((Descending.byList key l).perm rows).trans hperm
  have hleft : ((Descending.byList key l).order rows).Pairwise (Before key l) :=
    pairwise_before key l rows
  refine List.Perm.eq_of_pairwise ?_ hleft (hbefore.filter p) hsame
  intro a b ha hb hab hba
  have hmem : a ∈ l := List.mem_of_mem_filter (hsame.mem_iff.mp ha)
  rcases hab with hab | ⟨hkey, hab⟩
  · rcases hba with hba | ⟨hba, -⟩
    · exact absurd hab hba.asymm
    · exact absurd hba hab.ne
  · rcases hba with hba | ⟨-, hba'⟩
    · exact absurd hkey hba.ne
    · exact (List.idxOf_inj hmem).mp (le_antisymm hab hba')

/-- A page that ends inside a tie, when the database breaks the tie the other
way for the next one: the last row comes first again. -/
theorem repeated_of_tie {p : Paging} {key : α → κ} {rows init rest : List α} {x y : α}
    {position : Option κ} (hsize : (init ++ [x]).length = p.size) (hpos : 0 < p.size)
    (hcut : p.size ≤ p.cutoff) (hnodup : rows.Nodup)
    (hperm : ((init ++ [x]) ++ y :: rest).Perm
      (rows.filter ((⟨position, 0⟩ : Cursor κ).reaches key)))
    (hsorted : ((init ++ [x]) ++ y :: rest).Pairwise fun a b => key b ≤ key a)
    (htie : key x = key y) :
    ∃ orders, ∀ seen, Reads p key rows orders ⟨position, 0⟩ seen → ¬seen.Nodup := by
  have hnodup₁ : ((init ++ [x]) ++ y :: rest).Nodup :=
    hperm.nodup_iff.mpr (hnodup.filter _)
  -- the two orders differ in `x` and `y`
  have hswap : ((init ++ [y]) ++ x :: rest).Perm ((init ++ [x]) ++ y :: rest) := by
    rw [List.append_assoc, List.append_assoc]
    exact (List.Perm.swap _ _ _).append_left init
  have hkeys : ((init ++ [y]) ++ x :: rest).map key = ((init ++ [x]) ++ y :: rest).map key := by
    simp [htie]
  have hsorted₂ : ((init ++ [y]) ++ x :: rest).Pairwise fun a b => key b ≤ key a := by
    have hmap : (((init ++ [x]) ++ y :: rest).map key).Pairwise fun v w => w ≤ v :=
      List.pairwise_map.mpr hsorted
    rw [← hkeys] at hmap
    exact List.pairwise_map.mp hmap
  have hnodup₂ : ((init ++ [y]) ++ x :: rest).Nodup := hswap.nodup_iff.mpr hnodup₁
  refine ⟨fun i => if i = 0 then Descending.byList key ((init ++ [x]) ++ y :: rest)
    else Descending.byList key ((init ++ [y]) ++ x :: rest), fun seen hreads hseen => ?_⟩
  -- the first page, and the offset behind it
  have hfirst : (Descending.byList key ((init ++ [x]) ++ y :: rest)).order
      (rows.filter ((⟨position, 0⟩ : Cursor κ).reaches key)) = (init ++ [x]) ++ y :: rest := by
    have hall : ((init ++ [x]) ++ y :: rest).filter (fun _ => true) =
        (init ++ [x]) ++ y :: rest := List.filter_true _
    rw [byList_order hnodup₁ hsorted (hall.symm ▸ hperm.symm), hall]
  have hfetch := fetch_of_split hfirst hsize
  have hoffset : (if tiedAtEnd key (key y) (init ++ [x]) = p.size then min 0 p.cutoff + p.size
      else tiedAtEnd key (key y) (init ++ [x])) = tiedAtEnd key (key y) (init ++ [x]) := by
    split
    · rename_i hfull
      rw [hfull, Nat.zero_min, zero_add]
    · rfl
  have hnext := @nextCursor_append _ _ _ p key ⟨position, 0⟩ (init ++ [x]) y hsize
  rw [hoffset, ← hfetch] at hnext
  obtain ⟨seen', rfl, hrest⟩ := hreads.of_next hnext
  -- the second page starts with `x`
  obtain ⟨hinitSorted, -, hinitx⟩ :=
    List.pairwise_append.mp (List.pairwise_append.mp hsorted).1
  have hge : ∀ a ∈ init, key y ≤ key a := fun a ha => htie ▸ hinitx a ha x (by simp)
  obtain ⟨above, tied, hinit, habove, htied, hlen⟩ := exists_tied init hinitSorted hge
  have hbehind : ((init ++ [y]) ++ x :: rest).filter (fun a => key a ≤ key y) =
      tied ++ y :: x :: rest := by
    rw [hinit, List.append_assoc, List.append_assoc, List.singleton_append]
    refine filter_le_of_sorted habove fun a ha => ?_
    have htail := (List.pairwise_append.mp hsorted).2.1
    rcases List.mem_append.mp ha with ha | ha
    · exact (htied a ha).le
    · rcases List.mem_cons.mp ha with rfl | ha
      · exact le_rfl
      · rcases List.mem_cons.mp ha with rfl | ha
        · exact htie.le
        · exact (List.pairwise_cons.mp htail).1 a ha
  have hfound : (rows.filter ((⟨some (key y), tiedAtEnd key (key y) (init ++ [x])⟩ :
      Cursor κ).reaches key)).Perm
      (((init ++ [y]) ++ x :: rest).filter fun a => key a ≤ key y) := by
    have hreaches : (rows.filter ((⟨position, 0⟩ : Cursor κ).reaches key)).filter
        (fun a => key a ≤ key y) = rows.filter ((⟨some (key y),
          tiedAtEnd key (key y) (init ++ [x])⟩ : Cursor κ).reaches key) := by
      have hy : (⟨position, 0⟩ : Cursor κ).reaches key y = true :=
        (List.mem_filter.mp (hperm.mem_iff.mp (by simp))).2
      rw [List.filter_filter]
      refine List.filter_congr fun a _ => ?_
      unfold Cursor.reaches at hy ⊢
      cases position with
      | none => simp
      | some v =>
        have hyv : key y ≤ v := by simpa using hy
        by_cases ha : key a ≤ key y
        · simp [ha, ha.trans hyv]
        · simp [ha]
    rw [← hreaches]
    exact ((hswap.trans hperm).filter _).symm
  have hsecond := byList_order hnodup₂ hsorted₂ hfound
  have hoffset' : tiedAtEnd key (key y) (init ++ [x]) = tied.length + 1 := by
    rw [tiedAtEnd_append_tied htie, hlen]
  have hcapped : min (tiedAtEnd key (key y) (init ++ [x])) p.cutoff = tied.length + 1 := by
    have hle : tied.length ≤ init.length := by
      rw [hinit, List.length_append]
      omega
    rw [List.length_append, List.length_singleton] at hsize
    rw [hoffset']
    omega
  have hfetch₂ : x ∈ (fetch p key (Descending.byList key ((init ++ [y]) ++ x :: rest)) rows
      ⟨some (key y), tiedAtEnd key (key y) (init ++ [x])⟩).take p.size := by
    unfold fetch
    rw [hsecond, hbehind, hcapped]
    have hdrop : (tied ++ y :: x :: rest).drop (tied.length + 1) = x :: rest := by
      rw [List.drop_append]
      simp
    rw [hdrop, List.take_take]
    obtain ⟨n, hn⟩ : ∃ n, min p.size (p.size + 1) = n + 1 := ⟨p.size - 1, by omega⟩
    rw [hn, List.take_succ_cons]
    exact List.mem_cons_self
  have hagain : x ∈ seen' := hrest.page_subset hfetch₂
  have hpage : x ∈ (fetch p key (Descending.byList key ((init ++ [x]) ++ y :: rest)) rows
      ⟨position, 0⟩).take p.size := by
    rw [hfetch, ← hsize, List.take_left]
    simp
  exact (List.nodup_append.mp hseen).2.2 x hpage x hagain rfl

/-- **With a tie across the end of a page, a row may be shown twice.** -/
theorem exists_repeated {p : Paging} {key : α → κ} {rows : List α} (hpos : 0 < p.size)
    (hcut : p.size ≤ p.cutoff) (hnodup : rows.Nodup) :
    ∀ (n : ℕ) (position : Option κ),
      (rows.filter ((⟨position, 0⟩ : Cursor κ).reaches key)).length = n →
      ¬NoBreakInTie p.size (descKeys key (rows.filter ((⟨position, 0⟩ : Cursor κ).reaches key))) →
      ∃ orders, ∀ seen, Reads p key rows orders ⟨position, 0⟩ seen → ¬seen.Nodup := by
  intro n
  induction n using Nat.strong_induction_on with
  | _ n ih =>
    intro position hlength hbreak
    generalize hl : (rows.filter ((⟨position, 0⟩ : Cursor κ).reaches key)).insertionSort
      (Before key []) = l
    have hperm : l.Perm (rows.filter ((⟨position, 0⟩ : Cursor κ).reaches key)) :=
      hl ▸ List.perm_insertionSort _ _
    have hsorted : l.Pairwise fun a b => key b ≤ key a :=
      hl ▸ (Descending.byList key []).sorted _
    have hlong : p.size < l.length := by
      by_contra hshort
      refine hbreak fun k v hk hbefore hafter => ?_
      have hlen : (descKeys key (rows.filter ((⟨position, 0⟩ : Cursor κ).reaches key))).length =
          l.length := by rw [← map_key_of_sorted hperm hsorted, List.length_map]
      have hbound := (List.getElem?_eq_some_iff.mp hafter).1
      rw [hlen] at hbound
      have hmul : p.size ≤ p.size * k := Nat.le_mul_of_pos_right _ hk
      omega
    obtain ⟨init, x, y, rest, rfl, hlen⟩ := exists_split hpos hlong
    by_cases hlt : key y < key x
    · have hbehind := perm_behind_page hperm hsorted hlt
      have htail := (List.pairwise_append.mp hsorted).2.1
      have hkeys : descKeys key (rows.filter ((⟨some (key y), 0⟩ : Cursor κ).reaches key)) =
          descKeys key (y :: rest) := by
        rw [← map_key_of_sorted hbehind.symm htail]
        exact map_key_of_sorted (.refl _) htail
      have hfewer : (rows.filter ((⟨some (key y), 0⟩ : Cursor κ).reaches key)).length < n := by
        rw [hbehind.length_eq, ← hlength, ← hperm.length_eq, List.length_append, hlen]
        omega
      have hbreak' : ¬NoBreakInTie p.size
          (descKeys key (rows.filter ((⟨some (key y), 0⟩ : Cursor κ).reaches key))) := by
        rw [hkeys]
        exact fun h => hbreak (noBreak_of_split hlen hpos hperm hsorted hlt h)
      obtain ⟨orders, hrepeated⟩ := ih _ hfewer (some (key y)) rfl hbreak'
      -- any order for this page, and then those
      refine ⟨fun i => match i with
        | 0 => Descending.byList key ((init ++ [x]) ++ y :: rest)
        | i + 1 => orders i, fun seen hreads hseen => ?_⟩
      have hnodup₁ : ((init ++ [x]) ++ y :: rest).Nodup := hperm.nodup_iff.mpr (hnodup.filter _)
      have hall : ((init ++ [x]) ++ y :: rest).filter (fun _ => true) =
          (init ++ [x]) ++ y :: rest := List.filter_true _
      have hfirst : (Descending.byList key ((init ++ [x]) ++ y :: rest)).order
          (rows.filter ((⟨position, 0⟩ : Cursor κ).reaches key)) = (init ++ [x]) ++ y :: rest := by
        rw [byList_order hnodup₁ hsorted (hall.symm ▸ hperm.symm), hall]
      have hnext := @nextCursor_append _ _ _ p key ⟨position, 0⟩ (init ++ [x]) y hlen
      rw [tiedAtEnd_append_single hlt.ne', if_neg hpos.ne, ← fetch_of_split hfirst hlen] at hnext
      obtain ⟨seen', rfl, hrest⟩ := hreads.of_next hnext
      exact hrepeated seen' hrest (List.nodup_append.mp hseen).2.1
    · have hle : key y ≤ key x :=
        (List.pairwise_append.mp hsorted).2.2 x (by simp) y List.mem_cons_self
      exact repeated_of_tie hlen hpos hcut hnodup hperm hsorted (le_antisymm (not_lt.mp hlt) hle)

/-- **Each row is shown exactly once, whatever the order of ties, when no page
ends between two tied rows, and only then.** -/
theorem reads_perm_iff {p : Paging} {key : α → κ} {rows : List α} (hpos : 0 < p.size)
    (hcut : p.size ≤ p.cutoff) (hnodup : rows.Nodup) :
    (∀ orders, ∃ seen, Reads p key rows orders .start seen ∧ seen.Perm rows) ↔
      NoBreakInTie p.size (descKeys key rows) := by
  have hall : rows.filter ((⟨none, 0⟩ : Cursor κ).reaches key) = rows := List.filter_true _
  constructor
  · intro h
    by_contra hbreak
    rw [← hall] at hbreak
    obtain ⟨orders, hrepeated⟩ := exists_repeated hpos hcut hnodup _ none rfl hbreak
    obtain ⟨seen, hreads, hseen⟩ := h orders
    exact hrepeated seen hreads (hseen.nodup_iff.mpr hnodup)
  · intro h orders
    rw [← hall] at h
    obtain ⟨seen, hreads, hseen⟩ := reads_of_noBreak hpos _ orders none rfl h
    rw [hall] at hseen
    exact ⟨seen, hreads, hseen⟩

end

end Lib

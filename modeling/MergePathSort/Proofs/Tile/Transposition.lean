import MergePathSort.Outcome

/-!
# Odd-even transposition

A tile is sorted by rounds of exchanges between neighbours: even rounds compare the pairs that start at even places,
odd rounds those that start at odd places. Here a round is a function on lists, and it is proved that as many rounds
as there are elements sort any list, and that equal elements keep their order.

The argument counts, for a bound on the rank, the large elements among the first `x`. A round changes this number
only where `x` lies inside a pair: there it becomes `max (count (x - 1)) (count (x + 1) - 1)`. From this recurrence
alone follows a bound on the counts that tightens with every round (`count_transpositions_le`), and after the last
round the bound says that all large elements stand at the end.

## Main definitions

* `exchangePairs`, `transpose`, `transpositions` : the pairs of a round, one round, and rounds in order.

## Main results

* `transpositions_perm` : rounds only rearrange.
* `pairwise_rank_transpositions` : as many rounds as elements sort.
* `pairwise_transpositions` : a relation that exchanges respect is kept by all rounds.
-/

namespace MergePathSort

variable {α : Type}

/-- The pairs that start at even places, each exchanged if it is misplaced. -/
def exchangePairs (misplaced : α → α → Bool) : List α → List α
  | a :: b :: rest =>
    if misplaced a b then b :: a :: exchangePairs misplaced rest else a :: b :: exchangePairs misplaced rest
  | rest => rest

/-- One round: the pairs that start at even places, or in odd rounds those that start at odd places. -/
def transpose (misplaced : α → α → Bool) (round : Nat) (xs : List α) : List α :=
  xs.take (round % 2) ++ exchangePairs misplaced (xs.drop (round % 2))

/-- The first `rounds` rounds. -/
def transpositions (misplaced : α → α → Bool) (rounds : Nat) (xs : List α) : List α :=
  (List.range rounds).foldl (fun xs round => transpose misplaced round xs) xs

variable {misplaced : α → α → Bool}

theorem transpositions_succ (rounds : Nat) (xs : List α) :
    transpositions misplaced (rounds + 1) xs = transpose misplaced rounds (transpositions misplaced rounds xs) := by
  rw [transpositions, List.range_succ, List.foldl_append]
  rfl

/-! ### Rounds rearrange -/

theorem exchangePairs_perm (xs : List α) : (exchangePairs misplaced xs).Perm xs := by
  induction xs using exchangePairs.induct misplaced with
  | case1 a b rest hab ih =>
    rw [exchangePairs, if_pos hab]
    exact ((ih.cons a).cons b).trans (List.Perm.swap a b rest)
  | case2 a b rest hab ih =>
    rw [exchangePairs, if_neg hab]
    exact (ih.cons b).cons a
  | case3 rest hrest => rw [exchangePairs]; exact hrest

theorem transpose_perm (round : Nat) (xs : List α) : (transpose misplaced round xs).Perm xs := by
  calc (transpose misplaced round xs).Perm (xs.take (round % 2) ++ xs.drop (round % 2)) :=
      (exchangePairs_perm _).append_left _
    _ = xs := List.take_append_drop _ xs

/-- Rounds only rearrange. -/
theorem transpositions_perm (rounds : Nat) (xs : List α) : (transpositions misplaced rounds xs).Perm xs := by
  induction rounds with
  | zero => exact List.Perm.refl xs
  | succ rounds ih =>
    rw [transpositions_succ]
    exact (transpose_perm rounds _).trans ih

theorem length_exchangePairs (xs : List α) : (exchangePairs misplaced xs).length = xs.length :=
  (exchangePairs_perm xs).length_eq

theorem length_transpositions (rounds : Nat) (xs : List α) :
    (transpositions misplaced rounds xs).length = xs.length :=
  (transpositions_perm rounds xs).length_eq

/-! ### Pair by pair -/

/-- The list after its first `pairs` pairs are exchanged if they are misplaced. -/
def exchangedPairs (misplaced : α → α → Bool) (pairs : Nat) (xs : List α) : List α :=
  exchangePairs misplaced (xs.take (2 * pairs)) ++ xs.drop (2 * pairs)

theorem exchangePairs_append {xs : List α} (h : xs.length % 2 = 0) (ys : List α) :
    exchangePairs misplaced (xs ++ ys) = exchangePairs misplaced xs ++ exchangePairs misplaced ys := by
  induction xs using exchangePairs.induct misplaced with
  | case1 a b rest hab ih =>
    have hrest : rest.length % 2 = 0 := by
      simp only [List.length_cons] at h
      omega
    simp [exchangePairs, hab, ih hrest]
  | case2 a b rest hab ih =>
    have hrest : rest.length % 2 = 0 := by
      simp only [List.length_cons] at h
      omega
    simp [exchangePairs, hab, ih hrest]
  | case3 rest hrest =>
    match rest, hrest with
    | [], _ => rfl
    | [_], _ => simp at h
    | a :: b :: rest, hrest => exact (hrest a b rest rfl).elim

theorem exchangePairs_of_length_le_one {xs : List α} (h : xs.length ≤ 1) : exchangePairs misplaced xs = xs := by
  match xs with
  | [] => rfl
  | [_] => rfl
  | _ :: _ :: _ => simp at h

@[simp]
theorem exchangedPairs_zero (xs : List α) : exchangedPairs misplaced 0 xs = xs := rfl

/-- All pairs of a list. One element may be left. -/
theorem exchangedPairs_of_length_le {pairs : Nat} {xs : List α} (h : xs.length ≤ 2 * pairs + 1) :
    exchangedPairs misplaced pairs xs = exchangePairs misplaced xs := by
  rcases Nat.lt_or_ge xs.length (2 * pairs) with hlt | hge
  · rw [exchangedPairs, List.take_of_length_le (by omega), List.drop_of_length_le (by omega), List.append_nil]
  · have heven : (xs.take (2 * pairs)).length % 2 = 0 := by
      rw [List.length_take]
      omega
    have hrest : (xs.drop (2 * pairs)).length ≤ 1 := by
      rw [List.length_drop]
      omega
    have hsplit : exchangePairs misplaced (_ ++ _) = _ := exchangePairs_append heven (xs.drop (2 * pairs))
    rw [List.take_append_drop, exchangePairs_of_length_le_one hrest] at hsplit
    exact hsplit.symm

/-- The next pair of a list. -/
theorem exists_exchangedPairs_succ (misplaced : α → α → Bool) {pairs : Nat} {xs : List α}
    (h : 2 * pairs + 1 < xs.length) :
    ∃ done a b rest, done.length = 2 * pairs ∧ exchangedPairs misplaced pairs xs = done ++ a :: b :: rest ∧
      exchangedPairs misplaced (pairs + 1) xs =
        done ++ if misplaced a b then b :: a :: rest else a :: b :: rest := by
  have heven : (xs.take (2 * pairs)).length % 2 = 0 := by
    rw [List.length_take]
    omega
  have hdrop : xs.drop (2 * pairs) = xs[2 * pairs] :: xs[2 * pairs + 1] :: xs.drop (2 * pairs + 2) := by
    rw [List.drop_eq_getElem_cons (by omega), List.drop_eq_getElem_cons h]
  have htake : xs.take (2 * (pairs + 1)) = xs.take (2 * pairs) ++ [xs[2 * pairs], xs[2 * pairs + 1]] := by
    rw [Nat.mul_succ, List.take_add, hdrop]
    rfl
  refine ⟨exchangePairs misplaced (xs.take (2 * pairs)), xs[2 * pairs], xs[2 * pairs + 1],
    xs.drop (2 * pairs + 2), ?_, ?_, ?_⟩
  · rw [length_exchangePairs, List.length_take]
    omega
  · rw [exchangedPairs, hdrop]
  · rw [exchangedPairs, htake, exchangePairs_append heven, Nat.mul_succ, List.append_assoc]
    simp only [exchangePairs]
    split <;> rfl

/-! ### Place by place -/

/-- The list after the pair that starts at a place is exchanged if it is misplaced and lies among the first `count`
elements. -/
def exchangeAt (misplaced : α → α → Bool) (count i : Nat) (xs : List α) : List α :=
  match xs[i]?, xs[i + 1]? with
  | some a, some b => if i + 1 < count ∧ misplaced a b then (xs.set i b).set (i + 1) a else xs
  | _, _ => xs

/-- A place outside the pair. -/
theorem getElem?_exchangeAt_of_ne {count i t : Nat} {xs : List α} (h : t ≠ i) (h' : t ≠ i + 1) :
    (exchangeAt misplaced count i xs)[t]? = xs[t]? := by
  unfold exchangeAt
  split
  · split
    · rw [List.getElem?_set_ne (Ne.symm h'), List.getElem?_set_ne (Ne.symm h)]
    · rfl
  · rfl

@[simp]
theorem length_exchangeAt (count i : Nat) (xs : List α) : (exchangeAt misplaced count i xs).length = xs.length := by
  unfold exchangeAt
  split
  · split <;> simp
  · rfl

/-- A pair behind the first elements stays. -/
theorem exchangeAt_of_le {count i : Nat} (h : count ≤ i + 1) (xs : List α) : exchangeAt misplaced count i xs = xs := by
  unfold exchangeAt
  split
  · rw [if_neg fun hpair => absurd hpair.1 (Nat.not_lt.mpr h)]
  · rfl

/-- What an exchange leaves at a place depends on the pair and on that place only. -/
theorem getElem?_exchangeAt_congr {count i t : Nat} {xs ys : List α} (hfirst : xs[i]? = ys[i]?)
    (hsecond : xs[i + 1]? = ys[i + 1]?) (h : xs[t]? = ys[t]?) :
    (exchangeAt misplaced count i xs)[t]? = (exchangeAt misplaced count i ys)[t]? := by
  unfold exchangeAt
  rw [hfirst, hsecond]
  split
  · rename_i a b ha hb
    split
    · rw [ha] at hfirst
      rw [hb] at hsecond
      obtain ⟨hx, -⟩ := List.getElem?_eq_some_iff.mp hsecond
      obtain ⟨hy, -⟩ := List.getElem?_eq_some_iff.mp hb
      by_cases ht : t = i + 1
      · subst ht
        rw [List.getElem?_set_self (by simpa using hx), List.getElem?_set_self (by simpa using hy)]
      · rw [List.getElem?_set_ne (Ne.symm ht), List.getElem?_set_ne (Ne.symm ht)]
        by_cases ht' : t = i
        · subst ht'
          rw [List.getElem?_set_self (by omega), List.getElem?_set_self (by omega)]
        · rw [List.getElem?_set_ne (Ne.symm ht'), List.getElem?_set_ne (Ne.symm ht')]
          exact h
    · exact h
  · exact h

/-- The exchanges behind the first element. -/
theorem exchangeAt_cons (count i : Nat) (a : α) (xs : List α) :
    exchangeAt misplaced (count + 1) (i + 1) (a :: xs) = a :: exchangeAt misplaced count i xs := by
  unfold exchangeAt
  simp only [List.getElem?_cons_succ]
  split
  · simp only [List.set_cons_succ, Nat.add_lt_add_iff_right]
    split <;> rfl
  · rfl

/-- An even round is at every place the exchange of the pair there. -/
theorem getElem?_exchangePairs (xs : List α) (t : Nat) :
    (exchangePairs misplaced xs)[t]? = (exchangeAt misplaced xs.length (2 * (t / 2)) xs)[t]? := by
  induction xs using exchangePairs.induct misplaced generalizing t with
  | case1 a b rest hab ih =>
    rw [exchangePairs, if_pos hab]
    match t with
    | 0 => simp [exchangeAt, hab]
    | 1 => simp [exchangeAt, hab]
    | t + 2 =>
      have hpair : 2 * ((t + 2) / 2) = 2 * (t / 2) + 2 := by omega
      rw [hpair, List.length_cons, List.length_cons, exchangeAt_cons, exchangeAt_cons]
      exact ih t
  | case2 a b rest hab ih =>
    rw [exchangePairs, if_neg hab]
    match t with
    | 0 => simp [exchangeAt, hab]
    | 1 => simp [exchangeAt, hab]
    | t + 2 =>
      have hpair : 2 * ((t + 2) / 2) = 2 * (t / 2) + 2 := by omega
      rw [hpair, List.length_cons, List.length_cons, exchangeAt_cons, exchangeAt_cons]
      exact ih t
  | case3 rest hrest =>
    rw [exchangePairs, exchangeAt_of_le]
    · match rest, hrest with
      | [], _ => simp
      | [_], _ => simp
      | a :: b :: rest, hrest => exact (hrest a b rest rfl).elim
    · exact hrest

/-- A round is at every place the exchange of the pair there. -/
theorem getElem?_transpose (round : Nat) (xs : List α) (t : Nat) :
    (transpose misplaced round xs)[t]? =
      (exchangeAt misplaced xs.length (2 * ((t - round % 2) / 2) + round % 2) xs)[t]? := by
  rw [transpose]
  rcases Nat.mod_two_eq_zero_or_one round with hround | hround
  · rw [hround, List.take_zero, List.nil_append, List.drop_zero]
    exact getElem?_exchangePairs xs t
  · rw [hround]
    match xs, t with
    | [], t => simp [exchangePairs, exchangeAt]
    | a :: rest, 0 => rw [getElem?_exchangeAt_of_ne (by omega) (by omega)]; simp
    | a :: rest, t + 1 =>
      rw [Nat.add_sub_cancel, List.length_cons, exchangeAt_cons]
      exact getElem?_exchangePairs rest t

/-! ### Relations that exchanges respect -/

section Pairwise

variable {R : α → α → Prop}

/-- A relation that holds of neighbours after they are exchanged is kept by an even round. -/
theorem pairwise_exchangePairs {xs : List α} (hswap : ∀ a ∈ xs, ∀ b ∈ xs, misplaced a b = true → R b a)
    (h : xs.Pairwise R) : (exchangePairs misplaced xs).Pairwise R := by
  induction xs using exchangePairs.induct misplaced with
  | case1 a b rest hab ih =>
    rw [exchangePairs, if_pos hab]
    simp only [List.pairwise_cons, List.mem_cons, (exchangePairs_perm rest).mem_iff] at h ⊢
    obtain ⟨ha, hb, hrest⟩ := h
    refine ⟨?_, fun x hx => ha x (.inr hx), ih (fun x hx y hy => hswap x (by simp [hx]) y (by simp [hy])) hrest⟩
    rintro x (rfl | hx)
    · exact hswap x (by simp) b (by simp) hab
    · exact hb x hx
  | case2 a b rest hab ih =>
    rw [exchangePairs, if_neg hab]
    simp only [List.pairwise_cons, List.mem_cons, (exchangePairs_perm rest).mem_iff] at h ⊢
    obtain ⟨ha, hb, hrest⟩ := h
    exact ⟨ha, hb, ih (fun x hx y hy => hswap x (by simp [hx]) y (by simp [hy])) hrest⟩
  | case3 rest hrest => rw [exchangePairs]; exact h; exact hrest

/-- A relation that holds of neighbours after they are exchanged is kept by a round. -/
theorem pairwise_transpose {round : Nat} {xs : List α}
    (hswap : ∀ a ∈ xs, ∀ b ∈ xs, misplaced a b = true → R b a) (h : xs.Pairwise R) :
    (transpose misplaced round xs).Pairwise R := by
  rw [← List.take_append_drop (round % 2) xs, List.pairwise_append] at h
  obtain ⟨hfirst, hrest, hbetween⟩ := h
  rw [transpose, List.pairwise_append]
  refine ⟨hfirst, pairwise_exchangePairs (fun a ha b hb => ?_) hrest, fun a ha b hb => ?_⟩
  · exact hswap a (List.mem_of_mem_drop ha) b (List.mem_of_mem_drop hb)
  · exact hbetween a ha b ((exchangePairs_perm _).mem_iff.mp hb)

/-- A relation that holds of neighbours after they are exchanged is kept by all rounds. -/
theorem pairwise_transpositions {xs : List α} (rounds : Nat)
    (hswap : ∀ a ∈ xs, ∀ b ∈ xs, misplaced a b = true → R b a) (h : xs.Pairwise R) :
    (transpositions misplaced rounds xs).Pairwise R := by
  induction rounds with
  | zero => exact h
  | succ rounds ih =>
    rw [transpositions_succ]
    refine pairwise_transpose (fun a ha b hb => hswap a ?_ b ?_) ih
    · exact (transpositions_perm rounds xs).mem_iff.mp ha
    · exact (transpositions_perm rounds xs).mem_iff.mp hb

end Pairwise

/-! ### Counting large elements -/

/-- The number of elements among the first `x` whose rank is at least `bound`. -/
def countLarge (rank : α → Int) (bound : Int) (x : Nat) (xs : List α) : Nat :=
  (xs.take x).countP fun a => bound ≤ rank a

section Counting

variable {rank : α → Int} {bound : Int}

@[simp]
theorem countLarge_zero (xs : List α) : countLarge rank bound 0 xs = 0 := by simp [countLarge]

@[simp]
theorem countLarge_succ_cons (x : Nat) (a : α) (xs : List α) :
    countLarge rank bound (x + 1) (a :: xs) =
      countLarge rank bound x xs + if bound ≤ rank a then 1 else 0 := by
  simp [countLarge, List.countP_cons]

theorem countLarge_le (x : Nat) (xs : List α) : countLarge rank bound x xs ≤ x := by
  have h := List.countP_le_length (p := fun a => decide (bound ≤ rank a)) (l := xs.take x)
  rw [List.length_take] at h
  unfold countLarge
  omega

theorem countLarge_le_countP (x : Nat) (xs : List α) :
    countLarge rank bound x xs ≤ xs.countP fun a => bound ≤ rank a :=
  (List.take_sublist x xs).countP_le

/-- The count in front of and behind the first pair of a list. -/
theorem countLarge_pair (a b : α) (rest : List α) (x : Nat) :
    countLarge rank bound (x + 2) (a :: b :: rest) =
      countLarge rank bound x rest + (if bound ≤ rank b then 1 else 0) + if bound ≤ rank a then 1 else 0 := by
  rw [countLarge_succ_cons, countLarge_succ_cons]

/-- The count after an even round on a list, if it is known behind the first pair: inside of that pair it is the least
that it can be. -/
theorem countLarge_pair_step {a b p q : α} {rest rest' : List α} (hpair : p = a ∧ q = b ∨ p = b ∧ q = a)
    (hle : rank p ≤ rank q) (hrest : ∀ x, countLarge rank bound x rest' =
      if x % 2 = 1 ∧ x < rest.length then
        max (countLarge rank bound (x - 1) rest) (countLarge rank bound (x + 1) rest - 1)
      else countLarge rank bound x rest) (x : Nat) :
    countLarge rank bound x (p :: q :: rest') =
      if x % 2 = 1 ∧ x < (a :: b :: rest).length then
        max (countLarge rank bound (x - 1) (a :: b :: rest)) (countLarge rank bound (x + 1) (a :: b :: rest) - 1)
      else countLarge rank bound x (a :: b :: rest) := by
  have hboth : (if bound ≤ rank q then 1 else 0) + (if bound ≤ rank p then 1 else 0) =
      (if bound ≤ rank b then 1 else 0) + if bound ≤ rank a then 1 else 0 := by
    rcases hpair with ⟨rfl, rfl⟩ | ⟨rfl, rfl⟩
    · rfl
    · exact Nat.add_comm _ _
  match x with
  | 0 => simp
  | 1 =>
    have hinside : 1 % 2 = 1 ∧ 1 < (a :: b :: rest).length := ⟨rfl, by simp⟩
    have hbehind : countLarge rank bound (1 + 1) (a :: b :: rest) = _ := countLarge_pair a b rest 0
    have hfirst : (if bound ≤ rank p then 1 else 0) ≤ if bound ≤ rank q then 1 else 0 := by
      split
      · exact Nat.le_of_eq (if_pos (Int.le_trans ‹_› hle)).symm
      · exact Nat.zero_le _
    have hone : (if bound ≤ rank q then 1 else 0) ≤ 1 := by split <;> decide
    rw [if_pos hinside, hbehind, Nat.add_assoc, ← hboth, countLarge_succ_cons 0]
    simp only [countLarge_zero, Nat.zero_add, Nat.sub_self]
    omega
  | 2 => simp [hrest, hboth]
  | x + 3 =>
    have hbefore : countLarge rank bound (x + 3 - 1) (a :: b :: rest) = _ := countLarge_pair a b rest x
    have hthere : countLarge rank bound (x + 3) (a :: b :: rest) = _ := countLarge_pair a b rest (x + 1)
    have hbehind : countLarge rank bound (x + 3 + 1) (a :: b :: rest) = _ := countLarge_pair a b rest (x + 1 + 1)
    have hinside : (x + 3) % 2 = 1 ∧ x + 3 < (a :: b :: rest).length ↔ (x + 1) % 2 = 1 ∧ x + 1 < rest.length := by
      simp only [List.length_cons]
      omega
    rw [countLarge_pair p q, hrest, hbefore, hthere, hbehind, Nat.add_sub_cancel]
    simp only [hinside]
    clear hrest hbefore hthere hbehind
    split <;> omega

/-- The count after an even round: it changes where `x` lies inside a pair. -/
theorem countLarge_exchangePairs {xs : List α}
    (hrank : ∀ a ∈ xs, ∀ b ∈ xs, (misplaced a b = true ↔ rank b < rank a)) (x : Nat) :
    countLarge rank bound x (exchangePairs misplaced xs) =
      if x % 2 = 1 ∧ x < xs.length then
        max (countLarge rank bound (x - 1) xs) (countLarge rank bound (x + 1) xs - 1)
      else countLarge rank bound x xs := by
  induction xs using exchangePairs.induct misplaced generalizing x with
  | case1 a b rest hab ih =>
    have hlt := (hrank a (by simp) b (by simp)).mp hab
    rw [exchangePairs, if_pos hab]
    exact countLarge_pair_step (.inr ⟨rfl, rfl⟩) (by omega) (ih fun c hc d hd => hrank c (by simp [hc]) d (by simp [hd])) x
  | case2 a b rest hab ih =>
    rw [hrank a (by simp) b (by simp)] at hab
    rw [exchangePairs, if_neg (by rwa [hrank a (by simp) b (by simp)])]
    exact countLarge_pair_step (.inl ⟨rfl, rfl⟩) (by omega) (ih fun c hc d hd => hrank c (by simp [hc]) d (by simp [hd])) x
  | case3 rest hrest =>
    rw [exchangePairs]
    · rw [if_neg]
      rintro ⟨hodd, hlt⟩
      match rest, hrest with
      | [], _ => simp at hlt
      | [_], _ => simp at hlt; omega
      | a :: b :: rest, hrest => exact hrest a b rest rfl
    · exact hrest

/-- The count after a round: it changes where `x` lies inside a pair. -/
theorem countLarge_transpose {xs : List α}
    (hrank : ∀ a ∈ xs, ∀ b ∈ xs, (misplaced a b = true ↔ rank b < rank a)) (round x : Nat) :
    countLarge rank bound x (transpose misplaced round xs) =
      if x % 2 ≠ round % 2 ∧ 0 < x ∧ x < xs.length then
        max (countLarge rank bound (x - 1) xs) (countLarge rank bound (x + 1) xs - 1)
      else countLarge rank bound x xs := by
  rw [transpose]
  rcases Nat.mod_two_eq_zero_or_one round with hround | hround
  · rw [hround, List.take_zero, List.nil_append, List.drop_zero, countLarge_exchangePairs hrank]
    split <;> split <;> first | rfl | omega
  · rw [hround]
    match xs, x with
    | [], x => simp [exchangePairs]
    | a :: rest, 0 => simp
    | a :: rest, x + 1 =>
      have hrankRest : ∀ c ∈ rest, ∀ d ∈ rest, (misplaced c d = true ↔ rank d < rank c) :=
        fun c hc d hd => hrank c (by simp [hc]) d (by simp [hd])
      simp only [List.take_one, List.head?_cons, Option.toList_some, List.drop_one, List.tail_cons,
        List.singleton_append, countLarge_succ_cons, countLarge_exchangePairs hrankRest, Nat.add_sub_cancel,
        List.length_cons]
      match x with
      | 0 =>
        simp
      | x + 1 =>
        simp only [countLarge_succ_cons, Nat.add_sub_cancel]
        split <;> split <;> split <;> omega

/-- The bound on the counts, for all rounds. Its induction step is the recurrence of `countLarge_transpose`; where
the count stays the same so does the bound, as `m + m % 2 + rounds - x` is even there. -/
theorem countLarge_transpositions_le {xs : List α} {m : Nat}
    (hrank : ∀ a ∈ xs, ∀ b ∈ xs, (misplaced a b = true ↔ rank b < rank a))
    (hm : xs.countP (fun a => bound ≤ rank a) = m) (rounds : Nat) {x : Nat} (hx : x ≤ xs.length) :
    countLarge rank bound x (transpositions misplaced rounds xs) ≤
      m - min (xs.length - x) ((m + m % 2 + rounds - x) / 2) := by
  induction rounds generalizing x with
  | zero =>
    have hle : countLarge rank bound x xs ≤ x := countLarge_le x xs
    have hlem : countLarge rank bound x xs ≤ m := hm ▸ countLarge_le_countP x xs
    rw [transpositions, List.range_zero, List.foldl_nil]
    omega
  | succ rounds ih =>
    have hmem (a : α) : a ∈ transpositions misplaced rounds xs ↔ a ∈ xs := (transpositions_perm rounds xs).mem_iff
    rw [transpositions_succ,
      countLarge_transpose fun a ha b hb => hrank a ((hmem a).mp ha) b ((hmem b).mp hb), length_transpositions]
    split
    · rename_i hinside
      obtain ⟨-, hpos, hlt⟩ := hinside
      have hbefore : countLarge rank bound (x - 1) _ ≤ _ := ih (by omega)
      have hbehind : countLarge rank bound (x + 1) _ ≤ _ := ih (by omega)
      have hhalf : (m + m % 2 + rounds - (x - 1)) / 2 = (m + m % 2 + (rounds + 1) - x) / 2 := by
        rw [show m + m % 2 + rounds - (x - 1) = m + m % 2 + (rounds + 1) - x by omega]
      have hless : (m + m % 2 + (rounds + 1) - x) / 2 ≤ (m + m % 2 + rounds - (x + 1)) / 2 + 1 := by omega
      rw [hhalf] at hbefore
      generalize (m + m % 2 + (rounds + 1) - x) / 2 = half at hbefore hless ⊢
      generalize (m + m % 2 + rounds - (x + 1)) / 2 = halfBehind at hbehind hless
      exact Nat.max_le.mpr ⟨by omega, by omega⟩
    · rename_i houtside
      rcases Nat.eq_zero_or_pos x with rfl | hpos
      · simp
      · refine Nat.le_trans (ih hx) ?_
        rcases Nat.lt_or_eq_of_le hx with hlt | rfl
        · have hparity : x % 2 = rounds % 2 := Decidable.byContradiction fun hne => houtside ⟨hne, hpos, hlt⟩
          have hhalf : (m + m % 2 + (rounds + 1) - x) / 2 = (m + m % 2 + rounds - x) / 2 := by omega
          exact Nat.le_of_eq (by rw [hhalf])
        · exact Nat.le_of_eq (by rw [Nat.sub_self, Nat.zero_min, Nat.zero_min])

/-- A list is sorted if for every bound the large elements fill its end. -/
theorem pairwise_rank_of_countLarge_le {ys : List α}
    (h : ∀ bound x, x ≤ ys.length →
      countLarge rank bound x ys ≤ ys.countP (fun a => bound ≤ rank a) - (ys.length - x)) :
    ys.Pairwise fun a b => rank a ≤ rank b := by
  induction ys with
  | nil => exact List.Pairwise.nil
  | cons a rest ih =>
    rw [List.pairwise_cons]
    constructor
    · have hfirst := h (rank a) 1 (by simp)
      have hle := List.countP_le_length (p := fun b => decide (rank a ≤ rank b)) (l := rest)
      rw [countLarge_succ_cons 0, countLarge_zero] at hfirst
      simp only [Int.le_refl, if_true, List.countP_cons, decide_true, List.length_cons] at hfirst
      have hall := List.countP_eq_length (p := fun b => decide (rank a ≤ rank b)) (l := rest)
      intro b hb
      simpa using hall.mp (by omega) b hb
    · refine ih fun bound x hx => ?_
      have hnext := h bound (x + 1) (by simp only [List.length_cons]; omega)
      rw [countLarge_succ_cons] at hnext
      simp only [List.countP_cons, List.length_cons, decide_eq_true_eq] at hnext
      split at hnext <;> omega

variable (rank) in
/-- As many rounds as elements sort. -/
theorem pairwise_rank_transpositions {xs : List α}
    (hrank : ∀ a ∈ xs, ∀ b ∈ xs, (misplaced a b = true ↔ rank b < rank a)) :
    (transpositions misplaced xs.length xs).Pairwise fun a b => rank a ≤ rank b := by
  refine pairwise_rank_of_countLarge_le fun bound x hx => ?_
  rw [length_transpositions] at hx ⊢
  rw [(transpositions_perm xs.length xs).countP_eq]
  have hbound : countLarge rank bound x (transpositions misplaced xs.length xs) ≤ _ :=
    countLarge_transpositions_le hrank rfl xs.length hx
  omega

end Counting

end MergePathSort

import Bitpress.Context

/-!
The texts of identities.

Two identities never have the same text (`ElementId.text_injective`), and the
fingerprint of plain data is never the text of an identity
(`ContextValue.fingerprint_ne_text`): a text of an identity begins with a digit
and has four hyphens.
-/

namespace Bitpress

namespace ElementId

/-- The number that digits stand for. -/
def valueOf (cs : List Char) : Nat := cs.foldl (fun n c => n * 16 + (hexValue? c).getD 0) 0

theorem hexValue?_digitChar : ∀ d < 16, hexValue? (Nat.digitChar d) = some d := by decide

theorem toDigits_induction {p : Nat → List Char → Prop} (small : ∀ n < 16, p n [Nat.digitChar n])
    (more : ∀ n cs d, d < 16 → p n cs → p (n * 16 + d) (cs ++ [Nat.digitChar d])) (n : Nat) :
    p n (Nat.toDigits 16 n) := by
  induction n using Nat.strongRecOn with
  | _ n ih =>
    by_cases h : n < 16
    · rw [Nat.toDigits_of_lt_base h]
      exact small n h
    · have hle : 16 ≤ n := Nat.le_of_not_lt h
      have hp := more (n / 16) _ (n % 16) (Nat.mod_lt n (by decide)) (ih (n / 16) (by omega))
      rw [← Nat.toDigits_of_base_le (by decide) hle] at hp
      have hn : n / 16 * 16 + n % 16 = n := by omega
      rwa [hn] at hp

theorem valueOf_toDigits (n : Nat) : valueOf (Nat.toDigits 16 n) = n := by
  refine toDigits_induction (p := fun n cs => valueOf cs = n) (fun n h => ?_) (fun n cs d hd ih => ?_) n
  · simp [valueOf, hexValue?_digitChar n h]
  · unfold valueOf at ih ⊢
    rw [List.foldl_append, ih]
    simp [hexValue?_digitChar d hd]

theorem hexValue?_of_mem_toDigits {n : Nat} : ∀ c ∈ Nat.toDigits 16 n, (hexValue? c).isSome := by
  refine toDigits_induction (p := fun _ cs => ∀ c ∈ cs, (hexValue? c).isSome) (fun n h => ?_)
    (fun n cs d hd ih => ?_) n
  · simp [hexValue?_digitChar n h]
  · intro c hc
    rcases List.mem_append.mp hc with hc | hc
    · exact ih c hc
    · rw [List.mem_singleton.mp hc, hexValue?_digitChar d hd]
      rfl

theorem hexValue?_of_mem_digits {id : ElementId} {c : Char} (h : c ∈ id.digits) : (hexValue? c).isSome := by
  rcases List.mem_append.mp h with h | h
  · rw [(List.mem_replicate.mp h).2]
    rfl
  · exact hexValue?_of_mem_toDigits c h

theorem valueOf_digits (id : ElementId) : valueOf id.digits = id.value := by
  have hzeros : ∀ k, (List.replicate k '0').foldl (fun n c => n * 16 + (hexValue? c).getD 0) 0 = 0 := by
    intro k
    induction k with
    | zero => rfl
    | succ k ih => exact ih
  have hvalue := valueOf_toDigits id.value
  unfold valueOf digits at *
  rw [List.foldl_append, hzeros, hvalue]

theorem length_digits (id : ElementId) : 32 ≤ id.digits.length := by
  simp only [digits, List.length_append, List.length_replicate]
  omega

/-- The digits in groups, with hyphens between them. -/
def grouped (ds : List Char) : List Char :=
  ds.take 8 ++ ['-'] ++ (ds.drop 8).take 4 ++ ['-'] ++ (ds.drop 12).take 4 ++ ['-'] ++
    (ds.drop 16).take 4 ++ ['-'] ++ ds.drop 20

theorem toList_text (id : ElementId) : id.text.toList = grouped id.digits := String.toList_ofList

theorem filter_grouped {ds : List Char} (h : '-' ∉ ds) : (grouped ds).filter (· != '-') = ds := by
  have hkeep : ∀ cs : List Char, cs ⊆ ds → cs.filter (· != '-') = cs := by
    intro cs hcs
    refine List.filter_eq_self.mpr fun c hc => bne_iff_ne.mpr fun he => h ?_
    exact he ▸ hcs hc
  have hdrop : ∀ n, (ds.drop n).take 4 ⊆ ds := fun n c hc =>
    (List.drop_sublist n ds).subset ((List.take_sublist 4 _).subset hc)
  simp only [grouped, List.filter_append, hkeep _ (List.take_sublist 8 ds).subset, hkeep _ (hdrop _),
    hkeep _ (List.drop_sublist 20 ds).subset]
  have hjoin : ∀ n, (ds.drop n).take 4 ++ ds.drop (n + 4) = ds.drop n := fun n => by
    rw [← List.drop_drop, List.take_append_drop]
  simp [hjoin 16, hjoin 12, hjoin 8]

theorem text_injective {a b : ElementId} (h : a.text = b.text) : a = b := by
  have hplain : ∀ id : ElementId, '-' ∉ id.digits := fun id hc => by
    cases hexValue?_of_mem_digits hc
  have hdigits : a.digits = b.digits := by
    rw [← filter_grouped (hplain a), ← filter_grouped (hplain b), ← toList_text, ← toList_text, h]
  have hvalue : a.value = b.value := by rw [← valueOf_digits a, ← valueOf_digits b, hdigits]
  cases a
  cases b
  exact congrArg mk hvalue

theorem count_text (id : ElementId) : 4 ≤ id.text.toList.count '-' := by
  rw [toList_text]
  simp only [grouped, List.count_append, List.count_singleton_self]
  omega

theorem head_text (id : ElementId) : ∃ c cs, id.text.toList = c :: cs ∧ (hexValue? c).isSome := by
  rw [toList_text]
  have hlength := length_digits id
  have hmem : ∀ c ∈ id.digits, (hexValue? c).isSome := fun c hc => hexValue?_of_mem_digits hc
  cases hd : id.digits with
  | nil => simp [hd] at hlength
  | cons c cs => exact ⟨c, _, rfl, hmem c (by simp [hd])⟩

end ElementId

/-! ### Numbers -/

theorem count_toDigits (n : Nat) : (Nat.toDigits 10 n).count '-' = 0 := by
  refine List.count_eq_zero.mpr fun h => ?_
  have := Nat.isDigit_of_mem_toDigits (by decide) (by decide) h
  cases this

theorem RealLayout.count_placed {ds : List Char} (h : ds.count '-' = 0) (point : Int) :
    (placed ds point).count '-' = 0 := by
  have hpart : ∀ cs : List Char, cs ⊆ ds → cs.count '-' = 0 := fun cs hcs =>
    List.count_eq_zero.mpr fun hc => List.count_eq_zero.mp h (hcs hc)
  unfold placed
  dsimp only
  split
  · simp [List.count_append, h, zeros, List.count_replicate]
  · split
    · simp [List.count_append, h, zeros, List.count_replicate]
    · simp [List.count_append, hpart _ (List.take_sublist _ ds).subset, hpart _ (List.drop_sublist _ ds).subset]

theorem RealLayout.count_powered {ds : List Char} (h : ds.count '-' = 0) (plusSign : Bool) (point : Int) :
    (powered plusSign ds point).count '-' ≤ 1 := by
  have hsign : (if point - 1 < 0 then ['-'] else if plusSign then ['+'] else []).count '-' ≤ 1 := by
    split
    · simp
    · split <;> simp
  have hlead : ∀ lead : List Char, lead.count '-' = 0 →
      (lead ++ ['e'] ++ (if point - 1 < 0 then ['-'] else if plusSign then ['+'] else []) ++
        Nat.toDigits 10 (point - 1).natAbs).count '-' ≤ 1 := by
    intro lead hlead
    rw [List.count_append, List.count_append, List.count_append, hlead, count_toDigits]
    simpa using hsign
  match ds, h with
  | [], h => exact hlead [] h
  | [d], h => exact hlead [d] h
  | d :: e :: more, h =>
    refine hlead (d :: '.' :: e :: more) ?_
    rw [List.count_cons, Nat.add_eq_zero_iff] at h
    rw [List.count_cons, List.count_cons, h.1, h.2]
    rfl

/-- A number has a sign of its own and one of its power of ten at most. -/
theorem Number.count_text (n : Number) : n.text.toList.count '-' ≤ 2 := by
  cases n with
  | int n =>
    show (Int.repr n).toList.count '-' ≤ 2
    rw [Int.repr_eq_if]
    split <;> simp [count_toDigits]
  | real x =>
    show (RealLayout.data.textOf x).toList.count '-' ≤ 2
    have hsign : (if x.isNegative then ['-'] else []).count '-' ≤ 1 := by split <;> simp
    unfold RealLayout.textOf
    dsimp only
    split
    · rw [String.toList_ofList, List.count_append]
      exact Nat.le_succ_of_le hsign
    · rw [String.toList_ofList, List.count_append]
      have hds := count_toDigits (Decimal.shortest x).digits
      refine Nat.le_trans (Nat.add_le_add_right hsign _) (Nat.add_le_add_left (m := 1) ?_ 1)
      split
      · rw [RealLayout.count_placed hds]
        exact Nat.zero_le 1
      · exact RealLayout.count_powered hds _ _

/-! ### Fingerprints -/

theorem ContextValue.fingerprint_ne_text {v : ContextValue} (h : v.elementId? = none) (id : ElementId) :
    v.fingerprint ≠ id.text := by
  intro he
  obtain ⟨c, cs, hlist, hhex⟩ := id.head_text
  rw [← he] at hlist
  have hcount := id.count_text
  rw [← he] at hcount
  cases v with
  | null => simp [fingerprint] at hcount
  | bool b => cases b <;> simp [fingerprint] at hcount
  | num n => exact absurd hcount (by have := n.count_text; simp only [fingerprint]; omega)
  | str s =>
    simp [fingerprint, Text.quoted] at hlist
    rw [← hlist.1] at hhex
    cases hhex
  | list items =>
    simp [fingerprint] at hlist
    rw [← hlist.1] at hhex
    cases hhex
  | map entries =>
    simp [fingerprint] at hlist
    rw [← hlist.1] at hhex
    cases hhex
  | block bit context metadata => cases h
  | constant c => cases h

end Bitpress

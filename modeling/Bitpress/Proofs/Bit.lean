import Bitpress.Collection
import Bitpress.Preset
import Bitpress.Proofs.Declaration.Codec
import Bitpress.Proofs.Override.Grammar
import Bitpress.Proofs.Step

/-!
What a bit has of the declaration that it is made of.

A bit is its declaration, settled by the registry: the common tags are added, and the
presets of the reserved name are dropped (`exists_described`). So it has the fields that
the settled declaration gives a value (`Bit.hasField_iff`), and its presets, counted and
named, are those that are kept (`PresetChoice.picks_iff`).
-/

namespace Bitpress

/-- The presets of a declaration that are kept: all but those of the reserved name. -/
def BitDecl.kept (d : BitDecl) : List PresetDecl := d.presets.filter fun p => p.name ≠ some "default"

/-- A declaration with what its registry makes of it: the tags that count for everything, and only the presets that
are kept. -/
def BitDecl.settled (d : BitDecl) (tags : List String) : BitDecl := { d with tags := d.tags ++ tags, presets := d.kept }

namespace Bit

variable {d : BitDecl} {tags : List String} {s t : Session} {b : Bit} {id : ElementId} {key : String}

/-- The bit that is made of a settled declaration, under an identity. -/
def described (d : BitDecl) (id : ElementId) : Bit :=
  ⟨⟨id, d.name, d.tags, declaredMetadata d⟩, d.src, .ofTable d.defaults, d.presets⟩

theorem exists_described (h : effect (ofDecl d tags) s = (.ok b, t)) : ∃ id, b = described (d.settled tags) id := by
  have hkept : (d.presets.filter fun p => !isReserved p) = d.kept := by
    unfold BitDecl.kept isReserved defaultPreset
    exact List.filter_congr fun p _ => Bool.eq_iff_iff.mpr (by simp)
  unfold ofDecl at h
  dsimp only at h
  split at h
  · obtain ⟨_, _, hthrow, _⟩ := effect_bind_eq_ok.mp h
    cases hthrow
  · obtain ⟨_, _, _, h⟩ := effect_bind_eq_ok.mp h
    obtain ⟨info, _, hinfo, h⟩ := effect_bind_eq_ok.mp h
    obtain ⟨_, _, _, h⟩ := effect_bind_eq_ok.mp h
    obtain ⟨id, _, _, hinfo⟩ := effect_bind_eq_ok.mp hinfo
    cases h
    cases hinfo
    exact ⟨id, by rw [hkept]; rfl⟩

end Bit

/-! ### Fields -/

namespace Encode

variable {α : Type} {name key : String} {write : α → Tree}

@[simp] theorem valueAt?_optional (x : Option α) :
    (optional name write x).valueAt? key = if name = key then x.map write else none := by
  cases x with
  | none => exact (ite_self none).symm
  | some a => rfl

@[simp] theorem valueAt?_list (items : List α) : (list name write items).valueAt? key =
    if name = key then (if items = [] then none else some (.list (items.map write))) else none := by
  cases items with
  | nil => exact (ite_self none).symm
  | cons a rest => rfl

@[simp] theorem valueAt?_table (entries : Table Tree) : (table name entries).valueAt? key =
    if name = key then (if entries = [] then none else some (.map entries)) else none := by
  cases entries with
  | nil => exact (ite_self none).symm
  | cons e rest => rfl

/-- A list that is left out is one that does not count as there. -/
theorem any_isPresent_list (items : List α) :
    (if items = [] then none else some (Tree.list (items.map write))).any Tree.isPresent =
      (Tree.list (items.map write)).isPresent := by
  cases items <;> rfl

end Encode

namespace Bit

variable {d : BitDecl} {tags : List String} {s t : Session} {b : Bit} {id : ElementId} {key : String}

theorem valueAt?_declaredMetadata (hd : d.metadata.Distinct) (key : String) : (declaredMetadata d).valueAt? key =
    (d.metadata.valueAt? key <|> (Encode.optional "author" .str d.author ++ Encode.optional "kind" .str d.kind ++
      Encode.optional "level" .int d.level).valueAt? key) :=
  Table.valueAt?_putAll _ hd key

theorem field?_described (hid : key ≠ "id") : Element.field? (described d id) key =
    if key = "name" then d.name.map .str
    else if key = "tags" then some (.ofStrings d.tags)
    else ownField? (described d id) key <|> (declaredMetadata d).valueAt? key :=
  if_neg hid

/-- A bit has the fields of its settled declaration as that is written, and defaults. -/
theorem hasField_described (hd : Decode.Beside BitDecl.names d.metadata) (hid : key ≠ "id") :
    Element.hasField (described d id) key = (key == "defaults" || (d.encode.valueAt? key).any Tree.isPresent) := by
  have hdeclared := valueAt?_declaredMetadata hd.distinct key
  rw [Element.hasField, field?_described hid]
  by_cases hkey : key ∈ BitDecl.names
  · have hnone : d.metadata.valueAt? key = none := Table.valueAt?_eq_none.mpr fun h => hd.other key h hkey
    simp only [BitDecl.names, List.mem_cons, List.not_mem_nil, or_false] at hkey
    rw [hnone] at hdeclared
    -- The bit keeps empty lists, the written declaration leaves them out; neither counts as there.
    rcases hkey with rfl | rfl | rfl | rfl | rfl | rfl | rfl | rfl
    all_goals simp [ownField?, hdeclared, BitDecl.encode, Tree.valueAt?, Table.valueAt?_cons, Table.valueAt?_append, hnone]
    case inr.inl => exact (Encode.any_isPresent_list d.tags).symm
    case inr.inr.inr.inr.inr.inl => rfl
    case inr.inr.inr.inr.inr.inr.inl => exact (Encode.any_isPresent_list d.presets).symm
    case inr.inr.inr.inr.inr.inr.inr => rfl
  · have hother : ∀ name ∈ BitDecl.names, name ≠ key := fun name hname he => hkey (he ▸ hname)
    simp only [BitDecl.names, List.mem_cons, List.not_mem_nil, or_false, not_or, forall_eq_or_imp,
      forall_eq] at hkey hother
    simp [ownField?, hdeclared, BitDecl.encode, Tree.valueAt?, Table.valueAt?_cons, Table.valueAt?_append, hkey, hother]

/-- **A bit has the fields that its declaration gives a value that counts as there**, with the tags that count for
everything and the kept presets. Only `defaults` is a field of every bit, also where nothing is declared for it: its two
parts are there as empty maps. -/
theorem hasField_iff {written : Tree} (hd : BitDecl.decode written = .ok d) (h : effect (ofDecl d tags) s = (.ok b, t))
    (hid : key ≠ "id") : Element.hasField b key ↔
      key = "defaults" ∨ ∃ v, (d.settled tags).encode.valueAt? key = some v ∧ v.isPresent := by
  obtain ⟨id, rfl⟩ := exists_described h
  have hmeta : Decode.Beside BitDecl.names (d.settled tags).metadata := (BitDecl.decode_readable hd).metadata
  rw [hasField_described hmeta hid, Bool.or_eq_true, beq_iff_eq, Option.any_eq_true]

example : (effect (ofDecl { name := some "a", metadata := [("x", .str ""), ("y", .bool false)] } []) {}).1.map
    (fun b => ["tags", "src", "presets", "x", "y", "defaults"].filter (Element.hasField b)) = .ok ["y", "defaults"] := by
  cbv

end Bit

namespace Collection

variable {α : Type} [Element α]

theorem hasFields_has (has missing : List String) (key : String) :
    hasFields (key :: has) missing = fun a : α => Element.hasField a key && hasFields has missing a :=
  funext fun _ => Bool.and_assoc ..

theorem hasFields_missing (has missing : List String) (key : String) :
    hasFields has (key :: missing) = fun a : α => !Element.hasField a key && hasFields has missing a := by
  funext a
  unfold hasFields
  rw [List.any_cons, Bool.not_or, Bool.and_left_comm]

/-- A field that is asked for keeps what has it, and the same field asked to be missing keeps exactly the others. -/
theorem whereClause_field (c : Collection α) (w : WhereClause) (key : String) :
    c.whereClause { w with has := key :: w.has } =
        (fun found => ⟨found.items.filter fun a => Element.hasField a key⟩) <$> c.whereClause w ∧
      c.whereClause { w with missing := key :: w.missing } =
        (fun found => ⟨found.items.filter fun a => !Element.hasField a key⟩) <$> c.whereClause w := by
  simp only [whereClause, Filter.ofClause, map_bind, map_pure, List.filter_filter, hasFields_has, hasFields_missing,
    and_self]

end Collection

/-! ### Choosing a preset -/

namespace PresetChoice

variable {label name : String} {presets : List PresetDecl} {place : Nat} {p : PresetDecl} {b : Bit} {i : Int}
  {test : PresetDecl → Bool} {r : Outcome PresetChoice}

/-- A preset is the first with a property, at a place. -/
structure IsFirst (q : PresetDecl → Prop) (presets : List PresetDecl) (place : Nat) (p : PresetDecl) : Prop where
  there : presets[place]? = some p
  holds : q p
  first : ∀ earlier ∈ presets.take place, ¬ q earlier

def Named (name : String) (p : PresetDecl) : Prop := p.name = some name ∨ p.label = some name

/-- The id of a preset is a scalar with a text. -/
def Identified (text : String) (p : PresetDecl) : Prop := ∃ id, p.id = some id ∧ id.scalarText? = some text

/-- A text stands for a whole number of 64 bits: decimal digits, with a sign before them if one likes. -/
structure SpellsInt (s : String) (i : Int) : Prop where
  decimal : ∃ sign digits : List Char, s.toList = sign ++ digits ∧ digits ≠ [] ∧ (∀ c ∈ digits, c.isDigit) ∧
    ((sign = [] ∨ sign = ['+']) ∧ i = Nat.ofDigitChars 10 digits 0 ∨ sign = ['-'] ∧ i = -Nat.ofDigitChars 10 digits 0)
  lower : Number.leastInt ≤ i
  upper : i ≤ Number.greatestSigned

/-- What a number picks: the preset at its place, counted from one. -/
inductive PicksPlace (label : String) (presets : List PresetDecl) : Int → Outcome PresetChoice → Prop
  | within {place : Nat} {p : PresetDecl} (h : presets[place]? = some p) :
      PicksPlace label presets (place + 1) (.ok (.declared place p))
  | outside {i : Int} (h : i < 1 ∨ presets.length < i) :
      PicksPlace label presets i (.error (.presetOutOfRange label i presets.length))

/-- What a selector picks among the presets of a bit. -/
inductive Picks (label : String) (presets : List PresetDecl) : Option PresetSelector → Outcome PresetChoice → Prop
  | nothing : Picks label presets none (.ok .defaults)
  | index {i : Int} {r : Outcome PresetChoice} (h : PicksPlace label presets i r) :
      Picks label presets (some (.index i)) r
  | reserved {s : String} (h : Text.trim s = "default") : Picks label presets (some (.name s)) (.ok .defaults)
  | named {s : String} {place : Nat} {p : PresetDecl} (hother : Text.trim s ≠ "default")
      (h : IsFirst (Named (Text.trim s)) presets place p) :
      Picks label presets (some (.name s)) (.ok (.declared place p))
  | identified {s : String} {place : Nat} {p : PresetDecl} (hother : Text.trim s ≠ "default")
      (hname : ∀ p ∈ presets, ¬ Named (Text.trim s) p) (h : IsFirst (Identified (Text.trim s)) presets place p) :
      Picks label presets (some (.name s)) (.ok (.declared place p))
  | number {s : String} {i : Int} {r : Outcome PresetChoice} (hother : Text.trim s ≠ "default")
      (hname : ∀ p ∈ presets, ¬ Named (Text.trim s) p) (hid : ∀ p ∈ presets, ¬ Identified (Text.trim s) p)
      (hnumber : SpellsInt (Text.trim s) i) (h : PicksPlace label presets i r) : Picks label presets (some (.name s)) r
  | unknown {s : String} (hother : Text.trim s ≠ "default") (hname : ∀ p ∈ presets, ¬ Named (Text.trim s) p)
      (hid : ∀ p ∈ presets, ¬ Identified (Text.trim s) p) (hnumber : ∀ i, ¬ SpellsInt (Text.trim s) i) :
      Picks label presets (some (.name s)) (.error (.presetNotFound label (Text.trim s)))

theorem hasName_iff : hasName name p ↔ Named name p := by
  simp [hasName, Named]

theorem hasId_iff : hasId name p ↔ Identified name p := by
  simp [hasId, Identified, Option.bind_eq_some_iff]

/-- A whole number of whatever size. -/
def whole? : List Char → Option Int
  | '-' :: cs => (OverridePath.digits? cs).map fun n : Nat => -(n : Int)
  | '+' :: cs => (OverridePath.digits? cs).map fun n : Nat => (n : Int)
  | cs => (OverridePath.digits? cs).map fun n : Nat => (n : Int)

theorem signed?_eq (s : String) :
    signed? s = (whole? s.toList).filter fun i => Number.leastInt ≤ i ∧ i ≤ Number.greatestSigned := by
  have hdigits : ∀ cs : List Char, (if cs.isEmpty || cs.any (fun c => !c.isDigit) then none
      else some (cs.foldl (fun n c => n * 10 + (c.toNat - '0'.toNat)) 0)) = OverridePath.digits? cs := by
    intro cs
    unfold OverridePath.digits?
    simp only [Bool.or_eq_true, List.isEmpty_iff]
  have hmap : ∀ (g : Int → Int) (x : Option Nat),
      Option.map g (do let n ← x; pure (n : Int)) = x.map fun n : Nat => g n :=
    fun g x => by cases x <;> rfl
  unfold signed?
  simp only [hdigits, hmap]
  split
  · rename_i n hsome
    rw [show whole? s.toList = some n from hsome]
    simp [Option.filter]
  · rename_i hnone
    rw [show whole? s.toList = none from hnone]
    rfl

theorem whole?_eq_some_iff {cs : List Char} : whole? cs = some i ↔
    ∃ sign digits : List Char, cs = sign ++ digits ∧ digits ≠ [] ∧ (∀ c ∈ digits, c.isDigit) ∧
      ((sign = [] ∨ sign = ['+']) ∧ i = Nat.ofDigitChars 10 digits 0 ∨
        sign = ['-'] ∧ i = -Nat.ofDigitChars 10 digits 0) := by
  constructor
  · intro h
    unfold whole? at h
    split at h
    all_goals
      obtain ⟨n, hn, rfl⟩ := Option.map_eq_some_iff.mp h
      obtain ⟨hne, hdigits, rfl⟩ := OverridePath.digits?_eq_some_iff.mp hn
    · exact ⟨['-'], _, rfl, hne, hdigits, .inr ⟨rfl, rfl⟩⟩
    · exact ⟨['+'], _, rfl, hne, hdigits, .inl ⟨.inr rfl, rfl⟩⟩
    · exact ⟨[], _, rfl, hne, hdigits, .inl ⟨.inl rfl, rfl⟩⟩
  · rintro ⟨sign, digits, rfl, hne, hdigits, hvalue⟩
    have hread : OverridePath.digits? digits = some (Nat.ofDigitChars 10 digits 0) :=
      OverridePath.digits?_eq_some_iff.mpr ⟨hne, hdigits, rfl⟩
    rcases hvalue with ⟨rfl | rfl, rfl⟩ | ⟨rfl, rfl⟩
    · rw [List.nil_append]
      unfold whole?
      split
      · exact absurd (hdigits '-' (List.mem_cons_self ..)) (by decide)
      · exact absurd (hdigits '+' (List.mem_cons_self ..)) (by decide)
      · rw [hread]
        rfl
    · show (OverridePath.digits? digits).map _ = _
      rw [hread]
      rfl
    · show (OverridePath.digits? digits).map _ = _
      rw [hread]
      rfl

theorem signed?_eq_some_iff {s : String} : signed? s = some i ↔ SpellsInt s i := by
  rw [signed?_eq, Option.filter_eq_some_iff, decide_eq_true_iff, whole?_eq_some_iff]
  exact ⟨fun ⟨hdecimal, hlower, hupper⟩ => ⟨hdecimal, hlower, hupper⟩, fun h => ⟨h.decimal, h.lower, h.upper⟩⟩

theorem picksPlace_iff : PicksPlace b.label b.presets i r ↔ r = atPlace b i := by
  have hplace : ∀ {place : Nat} {p : PresetDecl}, b.presets[place]? = some p →
      atPlace b (place + 1) = .ok (.declared place p) := by
    intro place p hp
    have hindex : ((place : Int) + 1 - 1).toNat = place := by omega
    unfold atPlace
    rw [if_pos (by omega), hindex, hp]
  have houtside : (i < 1 ∨ b.presets.length < i) →
      atPlace b i = .error (.presetOutOfRange b.label i b.presets.length) := by
    intro hi
    have hnone : (if 1 ≤ i then b.presets[(i - 1).toNat]? else none) = none := by
      split
      · exact List.getElem?_eq_none (by omega)
      · rfl
    unfold atPlace
    rw [hnone]
  constructor
  · intro h
    cases h with
    | within h => exact (hplace h).symm
    | outside h => exact (houtside h).symm
  · rintro rfl
    by_cases hi : i < 1 ∨ b.presets.length < i
    · rw [houtside hi]
      exact .outside hi
    · obtain ⟨place, rfl⟩ : ∃ place : Nat, i = place + 1 := ⟨(i - 1).toNat, by omega⟩
      have hthere := List.getElem?_eq_getElem (l := b.presets) (i := place) (by omega)
      rw [hplace hthere]
      exact .within hthere

theorem first?_eq_some_iff {choice : PresetChoice} : first? b test = some choice ↔
    ∃ place p, IsFirst (fun p => test p) b.presets place p ∧ choice = .declared place p := by
  unfold first?
  constructor
  · intro h
    split at h
    · rename_i place hfind
      obtain ⟨p, hp, rfl⟩ := Option.map_eq_some_iff.mp h
      obtain ⟨hlt, hholds, hfirst⟩ := List.findIdx?_eq_some_iff_getElem.mp hfind
      obtain ⟨_, rfl⟩ := List.getElem?_eq_some_iff.mp hp
      refine ⟨place, _, ⟨hp, hholds, fun earlier hmem => ?_⟩, rfl⟩
      obtain ⟨j, hj, rfl⟩ := List.mem_take_iff_getElem.mp hmem
      exact hfirst j (by omega)
    · cases h
  · rintro ⟨place, p, h, rfl⟩
    obtain ⟨hlt, hp⟩ := List.getElem?_eq_some_iff.mp h.there
    have hfind : b.presets.findIdx? test = some place := by
      refine List.findIdx?_eq_some_iff_getElem.mpr ⟨hlt, hp ▸ h.holds, fun j hj => ?_⟩
      exact h.first _ (List.mem_take_iff_getElem.mpr ⟨j, by omega, rfl⟩)
    rw [hfind]
    dsimp only
    rw [h.there]
    rfl

theorem first?_eq_none_iff : first? b test = none ↔ ∀ p ∈ b.presets, ¬ test p := by
  have hnone : (∀ p ∈ b.presets, ¬ test p) ↔ b.presets.findIdx? test = none := by
    rw [List.findIdx?_eq_none_iff]
    simp
  rw [hnone]
  unfold first?
  constructor
  · intro h
    split at h
    · rename_i place hfind
      obtain ⟨hlt, -⟩ := List.findIdx?_eq_some_iff_getElem.mp hfind
      rw [List.getElem?_eq_getElem hlt] at h
      cases h
    · assumption
  · intro h
    rw [h]

section Texts
variable {s : String} (hother : Text.trim s ≠ "default")
include hother

theorem choose_of_first? {choice : PresetChoice}
    (h : (first? b (hasName (Text.trim s)) <|> first? b (hasId (Text.trim s))) = some choice) :
    choose b (some (.name s)) = .ok choice := by
  unfold choose Bit.defaultPreset
  dsimp only
  rw [if_neg hother, h]

theorem choose_of_not_first? (hname : first? b (hasName (Text.trim s)) = none)
    (hid : first? b (hasId (Text.trim s)) = none) : choose b (some (.name s)) =
      match signed? (Text.trim s) with
      | some i => atPlace b i
      | none => .error (.presetNotFound b.label (Text.trim s)) := by
  unfold choose Bit.defaultPreset
  dsimp only
  rw [if_neg hother, hname, hid]
  rfl

end Texts

theorem first?_hasName_eq_none : first? b (hasName name) = none ↔ ∀ p ∈ b.presets, ¬ Named name p := by
  simp only [first?_eq_none_iff, hasName_iff]

theorem first?_hasId_eq_none : first? b (hasId name) = none ↔ ∀ p ∈ b.presets, ¬ Identified name p := by
  simp only [first?_eq_none_iff, hasId_iff]

theorem first?_hasName_eq_some {choice : PresetChoice} : first? b (hasName name) = some choice ↔
    ∃ place p, IsFirst (Named name) b.presets place p ∧ choice = .declared place p := by
  simp only [first?_eq_some_iff, hasName_iff]

theorem first?_hasId_eq_some {choice : PresetChoice} : first? b (hasId name) = some choice ↔
    ∃ place p, IsFirst (Identified name) b.presets place p ∧ choice = .declared place p := by
  simp only [first?_eq_some_iff, hasId_iff]

theorem Picks.eq_choose {selector : Option PresetSelector} (h : Picks b.label b.presets selector r) :
    r = choose b selector := by
  cases h with
  | nothing => rfl
  | index h => exact picksPlace_iff.mp h
  | reserved h =>
    unfold choose Bit.defaultPreset
    exact (if_pos h).symm
  | named hother h =>
    refine (choose_of_first? hother ?_).symm
    rw [first?_hasName_eq_some.mpr ⟨_, _, h, rfl⟩]
    rfl
  | identified hother hname h =>
    refine (choose_of_first? hother ?_).symm
    rw [first?_hasName_eq_none.mpr hname, first?_hasId_eq_some.mpr ⟨_, _, h, rfl⟩]
    rfl
  | number hother hname hid hnumber h =>
    rw [choose_of_not_first? hother (first?_hasName_eq_none.mpr hname) (first?_hasId_eq_none.mpr hid),
      signed?_eq_some_iff.mpr hnumber]
    exact picksPlace_iff.mp h
  | unknown hother hname hid hnumber =>
    have hnone : signed? (Text.trim _) = none :=
      Option.eq_none_iff_forall_ne_some.mpr fun i hi => hnumber i (signed?_eq_some_iff.mp hi)
    rw [choose_of_not_first? hother (first?_hasName_eq_none.mpr hname) (first?_hasId_eq_none.mpr hid), hnone]

theorem picks_choose (b : Bit) (selector : Option PresetSelector) :
    Picks b.label b.presets selector (choose b selector) := by
  suffices h : ∃ r, Picks b.label b.presets selector r by
    obtain ⟨r, hr⟩ := h
    exact hr.eq_choose ▸ hr
  cases selector with
  | none => exact ⟨_, .nothing⟩
  | some selector =>
    cases selector with
    | index i => exact ⟨_, .index (picksPlace_iff.mpr rfl)⟩
    | name s =>
      by_cases hother : Text.trim s = "default"
      · exact ⟨_, .reserved hother⟩
      cases hname : first? b (hasName (Text.trim s)) with
      | some choice =>
        obtain ⟨place, p, hfirst, -⟩ := first?_hasName_eq_some.mp hname
        exact ⟨_, .named hother hfirst⟩
      | none =>
      have hunnamed := first?_hasName_eq_none.mp hname
      cases hid : first? b (hasId (Text.trim s)) with
      | some choice =>
        obtain ⟨place, p, hfirst, -⟩ := first?_hasId_eq_some.mp hid
        exact ⟨_, .identified hother hunnamed hfirst⟩
      | none =>
      have hunidentified := first?_hasId_eq_none.mp hid
      by_cases hnumber : ∃ i, SpellsInt (Text.trim s) i
      · obtain ⟨i, hi⟩ := hnumber
        exact ⟨_, .number hother hunnamed hunidentified hi (picksPlace_iff.mpr rfl)⟩
      · exact ⟨_, .unknown hother hunnamed hunidentified (not_exists.mp hnumber)⟩

theorem PicksPlace.there (h : PicksPlace label presets i (.ok (.declared place p))) : presets[place]? = some p := by
  cases h with
  | within h => exact h

/-- What is picked stands at its place. -/
theorem Picks.there {selector : Option PresetSelector} (h : Picks label presets selector (.ok (.declared place p))) :
    presets[place]? = some p := by
  cases h with
  | index h => exact h.there
  | named _ h => exact h.there
  | identified _ _ h => exact h.there
  | number _ _ _ _ h => exact h.there

/-- **A selector picks among the kept presets, or the defaults**: every selector has one outcome, and a declared preset
of the reserved name is none. -/
theorem picks_iff {d : BitDecl} {tags : List String} {s t : Session} (h : effect (Bit.ofDecl d tags) s = (.ok b, t))
    (selector : Option PresetSelector) :
    (∀ r, Picks b.label d.kept selector r ↔ r = choose b selector) ∧
      ∀ place p, choose b selector = .ok (.declared place p) → p ∈ d.presets ∧ p.name ≠ some "default" := by
  have hkept : b.presets = d.kept := by
    obtain ⟨id, rfl⟩ := Bit.exists_described h
    rfl
  refine ⟨fun r => ?_, fun place p hp => ?_⟩
  · rw [← hkept]
    exact ⟨Picks.eq_choose, fun hr => hr ▸ picks_choose b selector⟩
  · have hpicks : Picks b.label b.presets selector (.ok (.declared place p)) := hp ▸ picks_choose b selector
    have hthere := hpicks.there
    rw [hkept] at hthere
    simpa [BitDecl.kept] using List.mem_of_getElem? hthere

/-- Texts that are a label or an id besides being a number, behind a preset of the reserved name. -/
def counted : BitDecl :=
  { name := some "b"
    presets := [{ name := some "default" }, { name := some "a" }, { label := some "3" }, { id := some (.int 1) }] }

theorem picks_iff_of_counted : ∃ b t, effect (Bit.ofDecl counted []) {} = (.ok b, t) ∧
    Picks b.label counted.kept (some (.name "3")) (.ok (.declared 1 { label := some "3" })) ∧
    Picks b.label counted.kept (some (.name "1")) (.ok (.declared 2 { id := some (.int 1) })) ∧
    Picks b.label counted.kept (some (.name " +1 ")) (.ok (.declared 0 { name := some "a" })) ∧
    Picks b.label counted.kept (some (.index 4)) (.error (.presetOutOfRange "b" 4 3)) := by
  refine ⟨_, _, rfl, ?_, ?_, ?_, ?_⟩
  · exact ((picks_iff rfl _).1 _).mpr rfl
  · exact ((picks_iff rfl _).1 _).mpr rfl
  · exact ((picks_iff rfl _).1 _).mpr rfl
  · exact ((picks_iff rfl _).1 _).mpr rfl

end PresetChoice

end Bitpress

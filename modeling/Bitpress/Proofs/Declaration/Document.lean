import Bitpress.Declaration.Query
import Bitpress.Document
import Bitpress.Proofs.Declaration.Codec
import Mathlib

/-!
Declarations and documents come back.

Queries and compose entries come back from their encodings, if they hold what a
decoder can have given: numbers within the bounds of their types, and metadata that
is not under the name of a field. With them all declarations come back from their
trees.

What lies between the tree of a document and its text is the work of the JSON and
YAML libraries; where these read back what they print, a document that has been
parsed is parsed again from its text (`declarations_return`).
-/

namespace Bitpress

open Decode Outcome

namespace QueryKind

theorem decode_encode (k : QueryKind) : decode k.encode = .ok k := by
  cases k <;> rfl

theorem encode_ne_null (k : QueryKind) : k.encode ≠ .null := by
  cases k <;> exact fun h => by cases h

end QueryKind

namespace PresetSelector

theorem returns : Returns decode encode := by
  rintro selector ⟨t, h⟩
  cases selector with
  | name s => rfl
  | index n =>
    unfold decode at h
    split at h
    · rename_i hn
      cases h
      simp only [encode, decode, signed_returns n ⟨_, hn⟩]
    · cases h
    · cases h

theorem encode_ne_null (s : PresetSelector) : s.encode ≠ .null := by
  cases s <;> exact fun h => by cases h

end PresetSelector

namespace WithClause

theorem decode_encode (w : WithClause) : decode w.encode = .ok w := by
  let s₁ : WithClause := { context := w.context }
  exact (Fills.table (fun x => { context := x : WithClause }) fun _ => rfl).append
    (.table (fun x => { s₁ with queries := x }) fun _ => rfl)

end WithClause

/-! ### Predicates -/

namespace WhereClause

def names : List String := ["id", "id_", "name", "tags", "has", "missing"]

def Readable (c : WhereClause) : Prop := Beside names c.metadata

theorem field_other {d : Draft} {key : String} (h : key ∉ names) (t : Tree) :
    field d key t = .ok { d with clause := { d.clause with metadata := d.clause.metadata.put key t } } := by
  unfold field
  dsimp only
  split
  case h_7 => rfl
  all_goals exact absurd (by simp [names]) h

theorem decode_readable {t : Tree} {c : WhereClause} (h : decode t = .ok c) : c.Readable := by
  obtain ⟨d, hd, h⟩ := bind_eq_ok.mp h
  cases h
  refine fields_keeps (q := fun d : Draft => Beside names d.clause.metadata) (fun key v s s' hs hs' => ?_) (.nil names) hd
  have hid : (if s.seenId then (.error (.duplicateField "id") : Decoded Draft)
      else do return ⟨{ s.clause with id := ← Decode.optional string v }, true⟩) = .ok s' →
      Beside names s'.clause.metadata := by
    intro h
    split at h
    · cases h
    · obtain ⟨_, _, h⟩ := bind_eq_ok.mp h
      cases h
      exact hs
  unfold field at hs'
  dsimp only at hs'
  split at hs'
  case h_1 => exact hid hs'
  case h_2 => exact hid hs'
  case h_7 =>
    cases hs'
    refine hs.put ?_ v
    simp only [names, List.mem_cons, List.not_mem_nil, or_false, not_or]
    and_intros <;> assumption
  all_goals
    obtain ⟨_, _, hs'⟩ := bind_eq_ok.mp hs'
    cases hs'
    exact hs

theorem decode_encode {c : WhereClause} (h : c.Readable) : decode c.encode = .ok c := by
  let s₁ : Draft := ⟨{ id := c.id }, c.id.isSome⟩
  let s₂ := { s₁ with clause.name := c.name }
  let s₃ := { s₂ with clause.tags := c.tags }
  let s₄ := { s₃ with clause.has := c.has }
  let s₅ := { s₄ with clause.missing := c.missing }
  have hid : Fills field {} (Encode.optional "id" .str c.id) s₁ := by
    show Fills field {} (Encode.optional "id" .str c.id) ⟨{ id := c.id }, c.id.isSome⟩
    cases c.id <;> rfl
  refine bind_eq_ok.mpr ⟨{ s₅ with clause.metadata := c.metadata }, ?_, rfl⟩
  exact ((((hid.append
    (.optional (fun x => { s₁ with clause.name := x }) (fun _ => rfl) string_some)).append
    (.list (fun x => { s₂ with clause.tags := x }) (fun _ => rfl) string_each)).append
    (.list (fun x => { s₃ with clause.has := x }) (fun _ => rfl) string_each)).append
    (.list (fun x => { s₄ with clause.missing := x }) (fun _ => rfl) string_each)).append
    (.beside (fun x => { s₅ with clause.metadata := x }) (fun _ _ t hkey => field_other hkey t) h)

theorem returns : Returns decode encode := fun _ ⟨_, h⟩ => decode_encode (decode_readable h)

end WhereClause

/-! ### Selections -/

namespace SelectSpec

structure Readable (s : SelectSpec) : Prop where
  indices : ∀ is ∈ s.indices, ∀ i ∈ is, Read signed i
  k : ∀ n ∈ s.k, Read count n
  limit : ∀ n ∈ s.limit, Read count n
  offset : ∀ n ∈ s.offset, Read count n
  seed : ∀ n ∈ s.seed, Read unsigned n
  sample : ∀ n ∈ s.sample, Read count n

theorem decode_readable {t : Tree} {s : SelectSpec} (h : decode t = .ok s) : s.Readable := by
  have hnone : ∀ {α : Type} {p : α → Prop}, ∀ a ∈ (none : Option α), p a := fun _ h => by cases h
  refine fieldsOrItems_keeps (q := Readable) (fun key v s s' _ hs hs' => ?_)
    ⟨hnone, hnone, hnone, hnone, hnone, hnone⟩ h
  unfold field at hs'
  split at hs'
  case h_8 =>
    cases hs'
    exact hs
  all_goals
    obtain ⟨x, hx, hs'⟩ := bind_eq_ok.mp hs'
    cases hs'
  case h_1 =>
    refine { hs with indices := fun is his => ?_ }
    obtain ⟨u, hu⟩ := read_of_optional hx is his
    exact read_of_list hu
  case h_2 => exact { hs with k := read_of_optional hx }
  case h_3 => exact { hs with limit := read_of_optional hx }
  case h_4 => exact { hs with offset := read_of_optional hx }
  case h_5 => exact { hs with }
  case h_6 => exact { hs with seed := read_of_optional hx }
  case h_7 => exact { hs with sample := read_of_optional hx }

theorem decode_encode {s : SelectSpec} (h : s.Readable) : decode s.encode = .ok s := by
  let s₁ : SelectSpec := { indices := s.indices }
  let s₂ := { s₁ with k := s.k }
  let s₃ := { s₂ with limit := s.limit }
  let s₄ := { s₃ with offset := s.offset }
  let s₅ := { s₄ with shuffle := s.shuffle }
  let s₆ := { s₅ with seed := s.seed }
  exact ((((((Fills.optional (fun x => { indices := x : SelectSpec }) (fun _ => rfl)
      fun is his => ⟨list_write fun i hi => signed_returns i (h.indices is his i hi), fun h => by cases h⟩).append
    (.optional (fun x => { s₁ with k := x }) (fun _ => rfl) (count_some h.k))).append
    (.optional (fun x => { s₂ with limit := x }) (fun _ => rfl) (count_some h.limit))).append
    (.optional (fun x => { s₃ with offset := x }) (fun _ => rfl) (count_some h.offset))).append
    (.flag (fun x => { s₄ with shuffle := x }) fun _ => rfl)).append
    (.optional (fun x => { s₅ with seed := x }) (fun _ => rfl) (unsigned_some h.seed))).append
    (.optional (fun x => { s₆ with sample := x }) (fun _ => rfl) (count_some h.sample))

theorem returns : Returns decode encode := fun _ ⟨_, h⟩ => decode_encode (decode_readable h)

end SelectSpec

/-! ### Queries -/

namespace QuerySpec

structure Readable (q : QuerySpec) : Prop where
  query : ∀ w ∈ q.query, Read WhereClause.decode w
  «where» : ∀ w ∈ q.where, Read WhereClause.decode w
  select : ∀ s ∈ q.select, Read SelectSpec.decode s
  preset : ∀ p ∈ q.preset, Read PresetSelector.decode p

theorem decode_readable {t : Tree} {q : QuerySpec} (h : decode t = .ok q) : q.Readable := by
  have hnone : ∀ {α : Type} {p : α → Prop}, ∀ a ∈ (none : Option α), p a := fun _ h => by cases h
  refine fieldsOrItems_keeps (q := Readable) (fun key v s s' _ hs hs' => ?_) ⟨hnone, hnone, hnone, hnone⟩ h
  unfold field at hs'
  split at hs'
  case h_10 =>
    cases hs'
    exact hs
  all_goals
    obtain ⟨x, hx, hs'⟩ := bind_eq_ok.mp hs'
    cases hs'
  case h_3 => exact { hs with query := read_of_optional hx }
  case h_4 => exact { hs with «where» := read_of_optional hx }
  case h_5 => exact { hs with select := read_of_optional hx }
  case h_6 => exact { hs with preset := read_of_optional hx }
  all_goals exact { hs with }

theorem decode_encode {q : QuerySpec} (h : q.Readable) : decode q.encode = .ok q := by
  let s₁ : QuerySpec := { registry := q.registry }
  let s₂ := { s₁ with kind := q.kind }
  let s₃ := { s₂ with query := q.query }
  let s₄ := { s₃ with «where» := q.where }
  let s₅ := { s₄ with select := q.select }
  let s₆ := { s₅ with preset := q.preset }
  let s₇ := { s₆ with «with» := q.with }
  let s₈ := { s₇ with context := q.context }
  exact ((((((((Fills.optional (fun x => { registry := x : QuerySpec }) (fun _ => rfl) string_some).append
    (.optional (fun x => { s₁ with kind := x }) (fun _ => rfl) fun k _ => ⟨k.decode_encode, k.encode_ne_null⟩)).append
    (.optional (fun x => { s₂ with query := x }) (fun _ => rfl)
      fun w hw => ⟨WhereClause.returns w (h.query w hw), fun h => by cases h⟩)).append
    (.optional (fun x => { s₃ with «where» := x }) (fun _ => rfl)
      fun w hw => ⟨WhereClause.returns w (h.where w hw), fun h => by cases h⟩)).append
    (.optional (fun x => { s₄ with select := x }) (fun _ => rfl)
      fun s hs => ⟨SelectSpec.returns s (h.select s hs), fun h => by cases h⟩)).append
    (.optional (fun x => { s₅ with preset := x }) (fun _ => rfl)
      fun p hp => ⟨PresetSelector.returns p (h.preset p hp), p.encode_ne_null⟩)).append
    (.optional (fun x => { s₆ with «with» := x }) (fun _ => rfl) fun w _ => ⟨w.decode_encode, fun h => by cases h⟩)).append
    (.table (fun x => { s₇ with context := x }) fun _ => rfl)).append
    (.table (fun x => { s₈ with metadata := x }) fun _ => rfl)

theorem returns : Returns decode encode := fun _ ⟨_, h⟩ => decode_encode (decode_readable h)

end QuerySpec

/-! ### Compose entries -/

namespace ComposeSpec

structure Readable (c : ComposeSpec) : Prop where
  seed : ∀ n ∈ c.seed, Read unsigned n
  limit : ∀ n ∈ c.limit, Read count n

theorem decode_readable {t : Tree} {c : ComposeSpec} (h : decode t = .ok c) : c.Readable := by
  refine fieldsOrItems_keeps (q := Readable) (fun key v s s' _ hs hs' => ?_)
    ⟨fun _ h => (by cases h), fun _ h => (by cases h)⟩ h
  unfold field at hs'
  split at hs'
  case h_9 =>
    cases hs'
    exact hs
  all_goals
    obtain ⟨x, hx, hs'⟩ := bind_eq_ok.mp hs'
    cases hs'
  case h_6 => exact { hs with seed := read_of_optional hx }
  case h_7 => exact { hs with limit := read_of_optional hx }
  all_goals exact { hs with }

theorem decode_encode {c : ComposeSpec} (h : c.Readable) : decode c.encode = .ok c := by
  let s₁ : ComposeSpec := { flatten := c.flatten }
  let s₂ := { s₁ with merge := c.merge }
  let s₃ := { s₂ with outName := c.outName }
  let s₄ := { s₃ with dedupe := c.dedupe }
  let s₅ := { s₄ with shuffle := c.shuffle }
  let s₆ := { s₅ with seed := c.seed }
  let s₇ := { s₆ with limit := c.limit }
  exact (((((((Fills.optional (fun x => { flatten := x : ComposeSpec }) (fun _ => rfl)
      fun b _ => ⟨rfl, fun h => by cases h⟩).append
    (.optional (fun x => { s₁ with merge := x }) (fun _ => rfl) string_some)).append
    (.optional (fun x => { s₂ with outName := x }) (fun _ => rfl) string_some)).append
    (.optional (fun x => { s₃ with dedupe := x }) (fun _ => rfl) string_some)).append
    (.flag (fun x => { s₄ with shuffle := x }) fun _ => rfl)).append
    (.optional (fun x => { s₅ with seed := x }) (fun _ => rfl) (unsigned_some h.seed))).append
    (.optional (fun x => { s₆ with limit := x }) (fun _ => rfl) (count_some h.limit))).append
    (.optional (fun x => { s₇ with sources := x }) (fun _ => rfl)
      fun sources _ => ⟨strings_write sources, fun h => by cases h⟩)

theorem returns : Returns decode encode := fun _ ⟨_, h⟩ => decode_encode (decode_readable h)

end ComposeSpec

end Bitpress

/-! ### Documents -/

namespace Bitpress.Document

open Decode Outcome

variable {format : DocumentFormat} {path : String} {vars : Variables} {text : String} {t : Tree}
  {d : RegistryDocument}

/-- The formats that keep the tree of a document as it is. -/
def Plain (format : DocumentFormat) : Prop := format = .json ∨ format = .yaml

/-- A text is parsed if it is read as a tree that, filled, is decoded. -/
theorem parse_eq_ok : parse format path vars text = .ok d ↔ ∃ t, readTree format text = .ok t ∧
    RegistryDocument.decode (if t.isNull then .map [] else t.interpolate vars) = .ok d := by
  unfold parse
  rw [mapError_eq_ok]
  refine bind_eq_ok.trans (exists_congr fun t => and_congr_right fun _ => ?_)
  exact mapError_eq_ok

theorem read_of_parse (h : parse format path vars text = .ok d) : Read RegistryDocument.decode d := by
  obtain ⟨t, _, hdecode⟩ := parse_eq_ok.mp h
  exact ⟨_, hdecode⟩

/-- Without variables, a text is parsed as its tree is decoded. -/
theorem parse_of_readTree (htree : readTree format text = .ok t) (hnull : t.isNull = false)
    (h : RegistryDocument.decode t = .ok d) : parse format path [] text = .ok d := by
  have hinterpolate : t.interpolate [] = t := rfl
  refine parse_eq_ok.mpr ⟨t, htree, ?_⟩
  rwa [hnull, hinterpolate, if_neg Bool.false_ne_true]

theorem print_plain (hplain : Plain format) (d : RegistryDocument) : ∃ written, print format d = .ok written := by
  rcases hplain with rfl | rfl
  · exact ⟨_, rfl⟩
  · exact ⟨_, rfl⟩

/-- Whatever declaration a decoder gives, it gives again for its encoding. So a document that was parsed, in
whatever format, is parsed again from what it is printed as in JSON or YAML, if the text has the tree that was
printed. -/
theorem declarations_return :
    Returns RegistryDocument.decode RegistryDocument.encode ∧ Returns ImportDecl.decode ImportDecl.encode ∧
      Returns BitDecl.decode BitDecl.encode ∧ Returns BitSource.decode BitSource.encode ∧
      Returns PresetDecl.decode PresetDecl.encode ∧ Returns ConstantDecl.decode ConstantDecl.encode ∧
      Returns TargetDecl.decode TargetDecl.encode ∧ Returns Extends.decode Extends.encode ∧
      Returns MergeHints.decode MergeHints.encode ∧ Returns OverrideDecl.decode OverrideDecl.encode ∧
      Returns QuerySpec.decode QuerySpec.encode ∧ Returns QueryKind.decode QueryKind.encode ∧
      Returns WhereClause.decode WhereClause.encode ∧ Returns SelectSpec.decode SelectSpec.encode ∧
      Returns PresetSelector.decode PresetSelector.encode ∧ Returns WithClause.decode WithClause.encode ∧
      Returns ComposeSpec.decode ComposeSpec.encode ∧
      ∀ {format again : DocumentFormat} {path path' : String} {vars : Variables} {text : String} {d : RegistryDocument},
        parse format path vars text = .ok d → Plain again →
          ∃ written, print again d = .ok written ∧
            (readTree again written = .ok d.encode → parse again path' [] written = .ok d) := by
  refine ⟨RegistryDocument.returns, fun i _ => i.decode_encode, BitDecl.returns, fun s _ => s.decode_encode,
    PresetDecl.returns, ConstantDecl.returns, fun d _ => d.decode_encode, fun e _ => e.decode_encode,
    fun h _ => h.decode_encode, fun o _ => o.decode_encode, QuerySpec.returns, fun k _ => k.decode_encode,
    WhereClause.returns, SelectSpec.returns, PresetSelector.returns, fun w _ => w.decode_encode,
    ComposeSpec.returns, ?_⟩
  intro format again path path' vars text d h hagain
  obtain ⟨written, hwritten⟩ := print_plain hagain d
  exact ⟨written, hwritten, fun htree =>
    parse_of_readTree htree rfl (RegistryDocument.returns d (read_of_parse h))⟩

namespace Sample

/-- A bit with metadata between its named fields. -/
def source : String :=
  "\x7b\"bits\": [\x7b\"src\": \"x\", \"note\": \"n\", \"level\": 3, \"presets\": []\x7d]\x7d"

def document : RegistryDocument where
  bits := [{ level := some 3, src := .single "x", metadata := [("note", .str "n")] }]

end Sample

theorem declarations_return_sample :
    parse .json "a.json" [] Sample.source = .ok Sample.document ∧
      ∃ written, print .json Sample.document = .ok written ∧ parse .json "b.json" [] written = .ok Sample.document := by
  have hparse : parse .json "a.json" [] Sample.source = .ok Sample.document := by cbv
  have htree : readTree .json (Json.indented 0 Sample.document.encode ++ "\n") = .ok Sample.document.encode := by cbv
  obtain ⟨-, -, -, -, -, -, -, -, -, -, -, -, -, -, -, -, -, hreturns⟩ := declarations_return
  obtain ⟨written, hwritten, hagain⟩ := @hreturns _ .json _ "b.json" _ _ _ hparse (.inl rfl)
  cases hwritten
  exact ⟨hparse, _, rfl, hagain htree⟩

end Bitpress.Document

import Bitpress.Declaration.Codec
import Bitpress.Proofs.Record

/-!
Registry declarations come back from their encodings.

Most declarations do so whatever they hold. The others are `Readable` when they
hold what a decoder can have given: levels within their bounds, presets whose id is
not null, metadata that is not under the name of a field. What is decoded is
readable, and what is readable is decoded from its encoding.
-/

namespace Bitpress

open Decode Outcome

namespace MergeHints

theorem decode_encode (h : MergeHints) : decode h.encode = .ok h := by
  let s₁ : MergeHints := { context := h.context }
  let s₂ := { s₁ with queries := h.queries }
  exact ((Fills.optional (fun x => { context := x : MergeHints }) (fun _ => rfl) string_some).append
    (.optional (fun x => { s₁ with queries := x }) (fun _ => rfl) string_some)).append
    (.optional (fun x => { s₂ with compose := x }) (fun _ => rfl) string_some)

/-- Hints that are left out are those that say nothing. -/
theorem fills {σ : Type} {field : σ → String → Tree → Decoded σ} {h : MergeHints} (set : MergeHints → σ)
    (hset : Sets field (set {}) "merge" decode set) :
    Fills field (set {}) (if h.isEmpty then [] else [("merge", h.encode)]) (set h) := by
  split
  · rename_i hnone
    obtain ⟨context, queries, compose⟩ := h
    simp only [isEmpty, Bool.and_eq_true, Option.isNone_iff_eq_none] at hnone
    obtain ⟨⟨rfl, rfl⟩, rfl⟩ := hnone
    rfl
  · exact .always set hset h.decode_encode

end MergeHints

namespace OverrideDecl

theorem fills_value (o : OverrideDecl) (s : Draft) :
    Fills field { s with value := .null } (if o.value.isNull then [] else [("value", o.value)])
      { s with value := o.value } := by
  split
  · rename_i hnull
    cases hvalue : o.value with
    | null => rfl
    | _ =>
      rw [hvalue] at hnull
      cases hnull
  · exact .one rfl

theorem decode_encode (o : OverrideDecl) : decode o.encode = .ok o := by
  let s₁ : Draft := { path := some o.path }
  let s₂ := { s₁ with value := o.value }
  refine bind_eq_ok.mpr ⟨{ s₂ with op := o.op }, ?_, rfl⟩
  exact ((Fills.always (fun x => { path := some x : Draft }) (fun _ => rfl) (string_write o.path)).append
    (o.fills_value s₁)).append
    (.optional (fun x => { s₂ with op := x }) (fun _ => rfl) string_some)

end OverrideDecl

namespace ImportDecl

theorem decode_encode (i : ImportDecl) : decode i.encode = .ok i := rfl

end ImportDecl

namespace BitSource

theorem decode_encode (s : BitSource) : decode s.encode = .ok s := by
  cases s with
  | single text => rfl
  | fragments parts =>
    simp only [encode, decode, tableOf_write string_write]

end BitSource

namespace Extends

theorem decode_encode (e : Extends) : decode e.encode = .ok e := by
  cases e with
  | one base => rfl
  | many bases =>
    simp only [encode, decode, Tree.ofStrings, strings_write]

theorem encode_ne_null (e : Extends) : e.encode ≠ .null := by
  cases e <;> exact fun h => by cases h

end Extends

namespace TargetDecl

theorem decode_encode (d : TargetDecl) : decode d.encode = .ok d := by
  let s₁ : TargetDecl := { name := d.name }
  let s₂ := { s₁ with tags := d.tags }
  let s₃ := { s₂ with template := d.template }
  let s₄ := { s₃ with dest := d.dest }
  let s₅ := { s₄ with context := d.context }
  let s₆ := { s₅ with queries := d.queries }
  let s₇ := { s₆ with compose := d.compose }
  let s₈ := { s₇ with merge := d.merge }
  let s₉ := { s₈ with extends? := d.extends? }
  exact (((((((((Fills.optional (fun x => { name := x : TargetDecl }) (fun _ => rfl) string_some).append
    (.list (fun x => { s₁ with tags := x }) (fun _ => rfl) string_each)).append
    (.optional (fun x => { s₂ with template := x }) (fun _ => rfl) string_some)).append
    (.optional (fun x => { s₃ with dest := x }) (fun _ => rfl) string_some)).append
    (.table (fun x => { s₄ with context := x }) fun _ => rfl)).append
    (.table (fun x => { s₅ with queries := x }) fun _ => rfl)).append
    (.table (fun x => { s₆ with compose := x }) fun _ => rfl)).append
    (MergeHints.fills (fun x => { s₇ with merge := x }) fun _ => rfl)).append
    (.optional (fun x => { s₈ with extends? := x }) (fun _ => rfl) fun e _ => ⟨e.decode_encode, e.encode_ne_null⟩)).append
    (.list (fun x => { s₉ with overrides := x }) (fun _ => rfl) fun o _ => o.decode_encode)

end TargetDecl

/-! ### Presets -/

namespace PresetDecl

/-- A preset with null for its id is one without an id. -/
def Readable (p : PresetDecl) : Prop := p.id ≠ some .null

theorem decode_readable {t : Tree} {p : PresetDecl} (h : decode t = .ok p) : p.Readable := by
  refine fieldsOrItems_keeps (q := Readable) (fun key v s s' _ hs hs' => ?_) (fun h => by cases h) h
  unfold field at hs'
  split at hs'
  case h_3 =>
    cases hs'
    show (if v.isNull then none else some v) ≠ some Tree.null
    split
    · exact fun h => by cases h
    · rename_i hnull
      intro he
      cases he
      exact hnull rfl
  all_goals first
    | (obtain ⟨_, _, hs'⟩ := bind_eq_ok.mp hs'; cases hs'; exact hs)
    | (cases hs'; exact hs)

theorem fills_id {p : PresetDecl} (h : p.Readable) (s : PresetDecl) :
    Fills field { s with id := none } (Encode.optional "id" (fun t => t) p.id) { s with id := p.id } := by
  unfold Readable at h
  cases hid : p.id with
  | none => rfl
  | some t =>
    rw [hid] at h
    refine .one ?_
    cases t with
    | null => exact absurd rfl h
    | _ => rfl

theorem decode_encode {p : PresetDecl} (h : p.Readable) : decode p.encode = .ok p := by
  let s₁ : PresetDecl := { name := p.name }
  let s₂ := { s₁ with label := p.label }
  let s₃ := { s₂ with id := p.id }
  let s₄ := { s₃ with context := p.context }
  let s₅ := { s₄ with queries := p.queries }
  let s₆ := { s₅ with compose := p.compose }
  let s₇ := { s₆ with merge := p.merge }
  exact (((((((Fills.optional (fun x => { name := x : PresetDecl }) (fun _ => rfl) string_some).append
    (.optional (fun x => { s₁ with label := x }) (fun _ => rfl) string_some)).append
    (fills_id h s₂)).append
    (.table (fun x => { s₃ with context := x }) fun _ => rfl)).append
    (.table (fun x => { s₄ with queries := x }) fun _ => rfl)).append
    (.table (fun x => { s₅ with compose := x }) fun _ => rfl)).append
    (MergeHints.fills (fun x => { s₆ with merge := x }) fun _ => rfl)).append
    (.list (fun x => { s₇ with overrides := x }) (fun _ => rfl) fun o _ => o.decode_encode)

theorem returns : Returns decode encode := fun _ ⟨_, h⟩ => decode_encode (decode_readable h)

end PresetDecl

/-! ### Bits and constants -/

namespace BitDecl

def names : List String := ["name", "tags", "author", "kind", "level", "defaults", "presets", "src"]

structure Readable (b : BitDecl) : Prop where
  level : ∀ n ∈ b.level, Read signed n
  presets : ∀ p ∈ b.presets, Read PresetDecl.decode p
  metadata : Beside names b.metadata

theorem field_other {b : BitDecl} {key : String} (h : key ∉ names) (t : Tree) :
    field b key t = .ok { b with metadata := b.metadata.put key t } := by
  unfold field
  split
  case h_9 => rfl
  all_goals exact absurd (by simp [names]) h

theorem decode_readable {t : Tree} {b : BitDecl} (h : decode t = .ok b) : b.Readable := by
  refine fields_keeps (q := Readable) (fun key v s s' hs hs' => ?_)
    ⟨fun _ h => (by cases h), fun _ h => (by cases h), .nil names⟩ h
  unfold field at hs'
  split at hs'
  case h_5 =>
    obtain ⟨level, hlevel, hs'⟩ := bind_eq_ok.mp hs'
    cases hs'
    exact ⟨read_of_optional hlevel, hs.presets, hs.metadata⟩
  case h_7 =>
    obtain ⟨presets, hpresets, hs'⟩ := bind_eq_ok.mp hs'
    cases hs'
    exact ⟨hs.level, read_of_list hpresets, hs.metadata⟩
  case h_9 =>
    cases hs'
    refine ⟨hs.level, hs.presets, hs.metadata.put ?_ v⟩
    simp only [names, List.mem_cons, List.not_mem_nil, or_false, not_or]
    and_intros <;> assumption
  all_goals
    obtain ⟨_, _, hs'⟩ := bind_eq_ok.mp hs'
    cases hs'
    exact ⟨hs.level, hs.presets, hs.metadata⟩

theorem reads_src : Reads field "src" BitSource.decode src := by
  intro s key t s' h
  unfold field at h
  split at h
  case h_8 =>
    obtain ⟨source, hsource, h⟩ := bind_eq_ok.mp h
    cases h
    exact hsource
  case h_9 =>
    cases h
    rw [if_neg ‹_›]
  all_goals
    obtain ⟨_, _, h⟩ := bind_eq_ok.mp h
    cases h
    rfl

theorem decode_encode {b : BitDecl} (h : b.Readable) : decode b.encode = .ok b := by
  let s₁ : BitDecl := { name := b.name }
  let s₂ := { s₁ with tags := b.tags }
  let s₃ := { s₂ with author := b.author }
  let s₄ := { s₃ with kind := b.kind }
  let s₅ := { s₄ with level := b.level }
  let s₆ := { s₅ with defaults := b.defaults }
  let s₇ := { s₆ with presets := b.presets }
  let s₈ := { s₇ with src := b.src }
  exact ((((((((Fills.optional (fun x => { name := x : BitDecl }) (fun _ => rfl) string_some).append
    (.list (fun x => { s₁ with tags := x }) (fun _ => rfl) string_each)).append
    (.optional (fun x => { s₂ with author := x }) (fun _ => rfl) string_some)).append
    (.optional (fun x => { s₃ with kind := x }) (fun _ => rfl) string_some)).append
    (.optional (fun x => { s₄ with level := x }) (fun _ => rfl)
      fun n hn => ⟨signed_returns n (h.level n hn), fun h => by cases h⟩)).append
    (.table (fun x => { s₅ with defaults := x }) fun _ => rfl)).append
    (.list (fun x => { s₆ with presets := x }) (fun _ => rfl) fun p hp => PresetDecl.returns p (h.presets p hp))).append
    (.always (fun x => { s₇ with src := x }) (fun _ => rfl) b.src.decode_encode)).append
    (.beside (fun x => { s₈ with metadata := x }) (fun _ _ t hkey => field_other hkey t) h.metadata)

theorem returns : Returns decode encode := fun _ ⟨_, h⟩ => decode_encode (decode_readable h)

end BitDecl

namespace ConstantDecl

def names : List String := ["name", "tags", "symbol", "value"]

def Readable (c : ConstantDecl) : Prop := Beside names c.metadata

theorem field_other {d : Draft} {key : String} (h : key ∉ names) (t : Tree) :
    field d key t = .ok { d with metadata := d.metadata.put key t } := by
  unfold field
  split
  case h_5 => rfl
  all_goals exact absurd (by simp [names]) h

theorem decode_readable {t : Tree} {c : ConstantDecl} (h : decode t = .ok c) : c.Readable := by
  obtain ⟨d, hd, h⟩ := bind_eq_ok.mp h
  obtain ⟨_, _, h⟩ := bind_eq_ok.mp h
  obtain ⟨_, _, h⟩ := bind_eq_ok.mp h
  cases h
  refine fields_keeps (q := fun d : Draft => Beside names d.metadata) (fun key v s s' hs hs' => ?_) (.nil names) hd
  unfold field at hs'
  split at hs'
  case h_5 =>
    cases hs'
    refine hs.put ?_ v
    simp only [names, List.mem_cons, List.not_mem_nil, or_false, not_or]
    and_intros <;> assumption
  all_goals
    obtain ⟨_, _, hs'⟩ := bind_eq_ok.mp hs'
    cases hs'
    exact hs

theorem decode_encode {c : ConstantDecl} (h : c.Readable) : decode c.encode = .ok c := by
  let s₁ : Draft := { name := c.name }
  let s₂ := { s₁ with tags := c.tags }
  let s₃ := { s₂ with symbol := some c.symbol }
  let s₄ := { s₃ with value := some c.value }
  refine bind_eq_ok.mpr ⟨{ s₄ with metadata := c.metadata }, ?_, rfl⟩
  exact (((Fills.optional (fun x => { name := x : Draft }) (fun _ => rfl) string_some).append
    (.list (fun x => { s₁ with tags := x }) (fun _ => rfl) string_each)).append
    ((Fills.always (fun x => { s₂ with symbol := some x }) (fun _ => rfl) (scalarText_write c.symbol)).append
      (.always (fun x => { s₃ with value := some x }) (fun _ => rfl) (scalarText_write c.value)))).append
    (.beside (fun x => { s₄ with metadata := x }) (fun _ _ t hkey => field_other hkey t) h)

theorem returns : Returns decode encode := fun _ ⟨_, h⟩ => decode_encode (decode_readable h)

end ConstantDecl

/-! ### Documents -/

namespace RegistryDocument

structure Readable (d : RegistryDocument) : Prop where
  bits : ∀ b ∈ d.bits, Read BitDecl.decode b
  constants : ∀ c ∈ d.constants, Read ConstantDecl.decode c

theorem decode_readable {t : Tree} {d : RegistryDocument} (h : decode t = .ok d) : d.Readable := by
  refine fieldsOrItems_keeps (q := Readable) (fun key v s s' _ hs hs' => ?_)
    ⟨fun _ h => (by cases h), fun _ h => (by cases h)⟩ h
  unfold field at hs'
  split at hs'
  case h_3 =>
    obtain ⟨bits, hbits, hs'⟩ := bind_eq_ok.mp hs'
    cases hs'
    exact ⟨read_of_list hbits, hs.constants⟩
  case h_4 =>
    obtain ⟨constants, hconstants, hs'⟩ := bind_eq_ok.mp hs'
    cases hs'
    exact ⟨hs.bits, read_of_list hconstants⟩
  all_goals first
    | (obtain ⟨_, _, hs'⟩ := bind_eq_ok.mp hs'; cases hs'; exact ⟨hs.bits, hs.constants⟩)
    | (cases hs'; exact hs)

theorem reads_bits : Reads field "bits" (list BitDecl.decode) bits := by
  intro s key t s' h
  unfold field at h
  split at h
  case h_3 =>
    obtain ⟨bits, hbits, h⟩ := bind_eq_ok.mp h
    cases h
    exact hbits
  case h_6 =>
    cases h
    rw [if_neg ‹_›]
  all_goals
    obtain ⟨_, _, h⟩ := bind_eq_ok.mp h
    cases h
    rfl

theorem decode_encode {d : RegistryDocument} (h : d.Readable) : decode d.encode = .ok d := by
  let s₁ : RegistryDocument := { tags := d.tags }
  let s₂ := { s₁ with imports := d.imports }
  let s₃ := { s₂ with bits := d.bits }
  let s₄ := { s₃ with constants := d.constants }
  exact ((((Fills.list (fun x => { tags := x : RegistryDocument }) (fun _ => rfl) string_each).append
    (.list (fun x => { s₁ with imports := x }) (fun _ => rfl) fun i _ => i.decode_encode)).append
    (.list (fun x => { s₂ with bits := x }) (fun _ => rfl) fun b hb => BitDecl.returns b (h.bits b hb))).append
    (.list (fun x => { s₃ with constants := x }) (fun _ => rfl)
      fun c hc => ConstantDecl.returns c (h.constants c hc))).append
    (.list (fun x => { s₄ with targets := x }) (fun _ => rfl) fun t _ => t.decode_encode)

theorem returns : Returns decode encode := fun _ ⟨_, h⟩ => decode_encode (decode_readable h)

end RegistryDocument

end Bitpress

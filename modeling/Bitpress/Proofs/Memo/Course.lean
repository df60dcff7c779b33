import Bitpress.Proofs.Import.Standing
import Bitpress.Proofs.Preset.Echo

/-!
What loads keep of the defaults that are known.

`Resolver.ofChoiceAfresh` resolves presets as `Resolver.ofChoice` does, but it
keeps nothing and asks for nothing that was kept: where a query comes to the
defaults of a bit that the registry declares itself, they are worked out once
more. Bits of other registries have the defaults that these have given them. A
loaded registry is faithful (`Store.Faithful`) if the defaults that are kept of
its own bits are what this gives, as long as the registries stay that it was
built from.

In the course of a request, no registry that is current changes, and new defaults
are kept of new bits only (`Store.Gains`). So the bits that a registry has just
declared are in no other registry, and nobody else can have their defaults kept.
`Load.keeping` is the rule of loads, among them that all current registries are
faithful.
-/

namespace Bitpress

namespace Resolver

/-- The variables of a chosen preset, with the defaults of the bits `own` worked out wherever they are needed. -/
def ofChoiceAfresh (r : Resolver) (own : List Bit) (room : Nat) : Bit → PresetChoice → Build Context :=
  match room with
  | 0 => fun _ _ => throw .depthExceeded
  | room + 1 => fun b choice =>
    match choice with
    | .declared _ p => r.ofPreset (overlayBy (r.ofChoiceAfresh own room)) b p
    | .defaults =>
      if own.any fun a => a.info.id == b.info.id then r.ofDefaults (overlayBy (r.ofChoiceAfresh own room)) b
      else do
        match (← getThe Building).store.defaults? b.info.id with
        | some known => return known
        | none => throw (.elementNotFound b.info.id.text)

/-- The defaults of an own bit are worked out. -/
theorem ofChoiceAfresh_own {own : List Bit} {b : Bit} (hb : b ∈ own) (r : Resolver) (room : Nat) :
    r.ofChoiceAfresh own (room + 1) b .defaults = r.ofDefaults (overlayBy (r.ofChoiceAfresh own room)) b := by
  have hown : (own.any fun a => a.info.id == b.info.id) = true := by simpa using ⟨b, hb, rfl⟩
  rw [ofChoiceAfresh]
  simp only [hown]
  rfl

/-- Those of another bit are taken as they are. -/
theorem effect_ofChoiceAfresh_lent {own : List Bit} {b : Bit} {u : Building} {v : Context}
    (hother : ∀ a ∈ own, a.info.id ≠ b.info.id) (hv : u.store.defaults? b.info.id = some v) (r : Resolver) (room : Nat) :
    effect (r.ofChoiceAfresh own (room + 1) b .defaults) u = (.ok v, u) := by
  have hforeign : (own.any fun a => a.info.id == b.info.id) = false := by simpa using hother
  rw [ofChoiceAfresh]
  simp only [hforeign]
  show effect (getThe Building >>= _) _ = _
  rw [effect_bind, effect_get]
  dsimp only
  rw [hv]
  rfl

end Resolver

/-- Reads another registry, which has to be there already. -/
def Resolver.read (q : Location) : Build Contents := do
  let s := (← getThe Building).store
  if (s.registry q).isCurrent s.generation then return (s.registry q).contents
  else throw (.registryNotFound q.text)

/-- What a registry resolves its queries against when nothing is loaded any more. -/
def Resolver.settled (l : Library) (p : Location) (bits : Collection Bit) (constants : Collection Constant) : Resolver :=
  ⟨l, p, bits, constants, l.extent.presets, read⟩

theorem Resolver.effect_read (q : Location) (u : Building) : effect (read q) u =
    if (u.store.registry q).isCurrent u.store.generation then (.ok (u.store.registry q).contents, u)
    else (.error (.registryNotFound q.text), u) := by
  unfold read
  rw [effect_bind, effect_get]
  dsimp only
  split <;> rfl

namespace Store

/-- What a loaded registry resolves its queries against. -/
def resolver (s : Store) (l : Library) (p : Location) : Resolver :=
  .settled l p (s.registry p).contents.bits (s.registry p).contents.constants

/-- The defaults of a bit that a registry declares, worked out with the registries that are there: with enough room
for the presets that they lead to, they come to this in every session, and nothing else changes. -/
def GivesAfresh (s : Store) (l : Library) (p : Location) (b : Bit) (v : Context) : Prop :=
  ∃ least, ∀ room, least ≤ room → ∀ session, ∃ session',
    effect ((s.resolver l p).ofChoiceAfresh (s.own .bits p) room b .defaults) { store := { s with session } } =
      (.ok v, { store := { s with session := session' } })

/-- A build that has just gone, in a store. -/
def Visits (s : Store) (u : Building) : Prop := ∃ session, u = { store := { s with session } }

/-- Defaults that are lent are found by all who visit the store. -/
theorem repeats_lent {s : Store} {own : List Bit} {b : Bit} {v : Context} (hother : ∀ a ∈ own, a.info.id ≠ b.info.id)
    (hv : s.defaults? b.info.id = some v) (r : Resolver) :
    Repeats s.Visits (fun room => r.ofChoiceAfresh own room b .defaults) v := by
  refine .of_succ (y := fun room => r.ofChoiceAfresh own (room + 1) b .defaults) (fun _ => rfl) ⟨0, fun room _ u hu => ?_⟩
  obtain ⟨session, rfl⟩ := hu
  exact ⟨_, Resolver.effect_ofChoiceAfresh_lent hother hv r room, session, rfl⟩

theorem givesAfresh_iff {s : Store} {l : Library} {p : Location} {b : Bit} {v : Context} : s.GivesAfresh l p b v ↔
    Repeats s.Visits (fun room => (s.resolver l p).ofChoiceAfresh (s.own .bits p) room b .defaults) v := by
  constructor
  · rintro ⟨least, h⟩
    refine ⟨least, fun room hroom u hu => ?_⟩
    obtain ⟨session, rfl⟩ := hu
    obtain ⟨session', h⟩ := h room hroom session
    exact ⟨_, h, session', rfl⟩
  · rintro ⟨least, h⟩
    refine ⟨least, fun room hroom session => ?_⟩
    obtain ⟨_, h, session', rfl⟩ := h room hroom _ ⟨session, rfl⟩
    exact ⟨session', h⟩

/-- Registries and defaults that are there last. -/
structure Lasts (s t : Store) : Prop extends Kept s t where
  choices : s.session.choices ≤ t.session.choices
  defaults : KeepsDefaults s t

/-- The defaults that are kept of the bits that a registry declares are those worked out afresh, as long as there
are no more than `count` unseeded choices. -/
def Faithful (l : Library) (count : Nat) (s : Store) (p : Location) : Prop :=
  ∀ t, Lasts s t → t.session.choices = count → ∀ b ∈ t.own .bits p, ∃ v,
    t.defaults? b.info.id = some v ∧ t.GivesAfresh l p b v

namespace Lasts

variable {s t u : Store}

theorem refl (s : Store) : Lasts s s := ⟨⟨rfl, Nat.le_refl _, fun _ _ => rfl⟩, Nat.le_refl _, fun _ _ h => h⟩

theorem trans (h : Lasts s t) (h' : Lasts t u) : Lasts s u where
  generation := h'.generation.trans h.generation
  identities := Nat.le_trans h.identities h'.identities
  same p hp := (h'.same p (h.current hp)).trans (h.same p hp)
  choices := Nat.le_trans h.choices h'.choices
  defaults := h.defaults.trans h'.defaults

theorem session {session : Session} (h : Press.ahead.le s.session session) : Lasts s { s with session } :=
  ⟨⟨rfl, h.1, fun _ _ => rfl⟩, h.2, fun _ _ h => h⟩

theorem putDefaults (s : Store) (id : ElementId) (c : Context) : Lasts s (s.putDefaults id c) where
  generation := putDefaults_generation s id c
  identities := Nat.le_of_eq (congrArg Session.identities (putDefaults_session s id c).symm)
  same p _ := putDefaults_registry s id c p
  choices := Nat.le_of_eq (congrArg Session.choices (putDefaults_session s id c).symm)
  defaults := .putDefaults s id c

end Lasts

theorem Faithful.move {l : Library} {count : Nat} {s t : Store} {p : Location} (h : Faithful l count s p)
    (hle : Lasts s t) : Faithful l count t p := fun u hu => h u (hle.trans hu)

end Store

/-! ### In the course of a request -/

namespace ElementId

/-- An identity that is given out is among the first `n`. -/
def GivenBy (n : Nat) (id : ElementId) : Prop := id.value < firstFresh + n

/-- An identity that is given out after the first `n`. -/
def GivenAfter (n : Nat) (id : ElementId) : Prop := firstFresh + n ≤ id.value

variable {m n : Nat} {id : ElementId}

theorem GivenBy.mono (h : id.GivenBy m) (hle : m ≤ n) : id.GivenBy n :=
  Nat.lt_of_lt_of_le h (Nat.add_le_add_left hle _)

theorem GivenAfter.mono (h : id.GivenAfter n) (hle : m ≤ n) : id.GivenAfter m :=
  Nat.le_trans (Nat.add_le_add_left hle _) h

theorem GivenBy.not_after (h : id.GivenBy n) : ¬ id.GivenAfter n := Nat.not_le_of_lt h

end ElementId

namespace Store

/-- What is there lasts, and what is new has to do with identities that are given out after the first `n`. -/
structure Gains (n : Nat) (s t : Store) : Prop extends Lasts s t where
  fresh : ∀ id v, t.defaults? id = some v → s.defaults? id = some v ∨ id.GivenAfter n
  lent : ∀ p, t.Current p → ∀ b ∈ t.items .bits p,
    (∃ q, s.Current q ∧ b ∈ s.items .bits q) ∨ b.info.id.GivenAfter n

namespace Gains

variable {m n : Nat} {s t u : Store}

theorem refl (n : Nat) (s : Store) : Gains n s s :=
  ⟨.refl s, fun _ _ h => .inl h, fun p hp _ hb => .inl ⟨p, hp, hb⟩⟩

theorem mono (h : Gains n s t) (hle : m ≤ n) : Gains m s t :=
  ⟨h.toLasts, fun id v hv => (h.fresh id v hv).imp_right fun h => h.mono hle,
    fun p hp b hb => (h.lent p hp b hb).imp_right fun h => h.mono hle⟩

theorem trans (h : Gains n s t) (h' : Gains n t u) : Gains n s u where
  toLasts := h.toLasts.trans h'.toLasts
  fresh id v hv := (h'.fresh id v hv).elim (fun hv => h.fresh id v hv) .inr
  lent p hp _ hb := (h'.lent p hp _ hb).elim (fun ⟨q, hq, hb⟩ => h.lent q hq _ hb) .inr

theorem session {session : Session} (h : Press.ahead.le s.session session) : Gains n s { s with session } :=
  ⟨.session h, fun _ _ h => .inl h, fun p hp _ hb => .inl ⟨p, hp, hb⟩⟩

theorem putDefaults {id : ElementId} (h : id.GivenAfter n) (c : Context) : Gains n s (s.putDefaults id c) where
  toLasts := .putDefaults s id c
  fresh other v hv := by
    by_cases hother : other = id
    · exact .inr (hother ▸ h)
    · rw [defaults?_putDefaults_of_ne s c hother] at hv
      exact .inl hv
  lent p hp b hb := by
    have hsame := putDefaults_registry s id c p
    refine .inl ⟨p, hp.congr (putDefaults_generation s id c).symm hsame.symm, ?_⟩
    unfold items at hb
    rwa [hsame] at hb

/-- Registries that are not current and do not become so may change. -/
theorem of_idle (hlasts : Lasts s t) (hdefaults : ∀ id, t.defaults? id = s.defaults? id)
    (hsame : ∀ p, t.Current p → t.registry p = s.registry p) : Gains n s t where
  toLasts := hlasts
  fresh id v hv := .inl (hdefaults id ▸ hv)
  lent p hp b hb := by
    refine .inl ⟨p, hp.congr hlasts.generation.symm (hsame p hp).symm, ?_⟩
    unfold items at hb
    rwa [hsame p hp] at hb

end Gains

end Store

namespace Load

open Store

/-- What holds between the steps of loads in one generation, with some registries being loaded. Before them, there
were `count` unseeded choices. -/
structure Keeping (l : Library) (count generation : Nat) (trail : List Location) (s : Store) : Prop where
  generation : s.generation = generation
  choices : count ≤ s.session.choices
  settled : s.Settled
  dated : ∀ id v, s.defaults? id = some v → id.GivenBy s.session.identities
  shown : ∀ p, s.Current p → ∀ b ∈ s.items .bits p, b.info.id.GivenBy s.session.identities
  owned : ∀ p, s.Current p → ∀ b ∈ s.items .bits p, ∃ q, s.Current q ∧ b ∈ s.own .bits q
  unique : ∀ p q, s.Current p → s.Current q → ∀ a ∈ s.own .bits p, ∀ b ∈ s.own .bits q, a.info.id = b.info.id → a = b
  faithful : ∀ p, s.Current p → Faithful l count s p
  idle : ∀ q ∈ trail, ¬ s.Current q

/-- What loads keep. -/
def keeping (l : Library) (count generation : Nat) (trail : List Location) : Rule Store where
  inv := Keeping l count generation trail
  le s t := Gains s.session.identities s t
  refl s := .refl _ s
  trans h h' := h.trans (h'.mono h.identities)

variable {l : Library} {count generation : Nat} {trail : List Location} {s t : Store} {p : Location}

namespace Keeping

/-- Nothing becomes current, and the defaults stay. -/
theorem move (h : Keeping l count generation trail s) (hlasts : Lasts s t)
    (hsame : ∀ p, t.Current p → t.registry p = s.registry p)
    (hcontents : ∀ p, (t.registry p).contents = (s.registry p).contents)
    (hdefaults : ∀ id v, t.defaults? id = some v → s.defaults? id = some v ∨ id.GivenBy t.session.identities) :
    Keeping l count generation trail t := by
  have hback : ∀ p, t.Current p → s.Current p := fun p hp => hp.congr hlasts.generation.symm (hsame p hp).symm
  refine ⟨hlasts.generation.trans h.generation, Nat.le_trans h.choices hlasts.choices, fun p => ?_, fun id v hv => ?_,
    fun p hp b hb => ?_, fun p hp b hb => ?_, fun p q hp hq => ?_, fun p hp => (h.faithful p (hback p hp)).move hlasts,
    fun q hq hp => h.idle q hq (hback q hp)⟩
  · rw [hcontents]
    exact (h.settled p).mono hlasts.defaults
  · exact (hdefaults id v hv).elim (fun hv => (h.dated id v hv).mono hlasts.identities) fun h => h
  · rw [hlasts.items_eq (hback p hp)] at hb
    exact (h.shown p (hback p hp) b hb).mono hlasts.identities
  · rw [hlasts.items_eq (hback p hp)] at hb
    obtain ⟨q, hq, hb⟩ := h.owned p (hback p hp) b hb
    exact ⟨q, hlasts.current hq, by rwa [hlasts.own_eq hq]⟩
  · rw [hlasts.own_eq (hback p hp), hlasts.own_eq (hback q hq)]
    exact h.unique p q (hback p hp) (hback q hq)

theorem session {session : Session} (h : Keeping l count generation trail s)
    (hahead : Press.ahead.le s.session session) : Keeping l count generation trail { s with session } :=
  h.move (.session hahead) (fun _ _ => rfl) (fun _ => rfl) fun _ _ hv => .inl hv

theorem putDefaults {id : ElementId} (h : Keeping l count generation trail s) (hid : id.GivenBy s.session.identities)
    (c : Context) : Keeping l count generation trail (s.putDefaults id c) := by
  have hregistry := putDefaults_registry s id c
  refine h.move (.putDefaults s id c) (fun p _ => hregistry p) (fun p => by rw [hregistry]) fun other v hv => ?_
  by_cases hother : other = id
  · refine .inr ?_
    rw [putDefaults_session, hother]
    exact hid
  · rw [defaults?_putDefaults_of_ne s c hother] at hv
    exact .inl hv

end Keeping

end Load

end Bitpress

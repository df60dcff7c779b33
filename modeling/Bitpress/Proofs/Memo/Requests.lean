import Bitpress.Proofs.History.Requests
import Bitpress.Proofs.Memo.Load
import Bitpress.Proofs.Memo.Settled

/-!
Defaults after a request are what they are without a memo.

As long as identities are not given out twice, nothing is remembered of bits that
are still to come (`Store.Served.rested`). So every registry that a request has
loaded has the defaults of its own bits as they are worked out afresh in the store
that the request leaves, and those of all other bits that it shows are the same
for the registries that declare them (`Store.Served.defaults_afresh`).
-/

namespace Bitpress

namespace Store

open Load

variable {l : Library} {s t : Store} {p : Location} {b : Bit} {v w : Context}

/-- What is worked out afresh is one thing. -/
theorem GivesAfresh.unique (hv : t.GivesAfresh l p b v) (hw : t.GivesAfresh l p b w) : v = w := by
  obtain ⟨least, hv⟩ := hv
  obtain ⟨least', hw⟩ := hw
  obtain ⟨_, hv⟩ := hv (max least least') (Nat.le_max_left ..) t.session
  obtain ⟨_, hw⟩ := hw (max least least') (Nat.le_max_right ..) t.session
  cases hv.symm.trans hw
  rfl

/-- The stores that requests lead to. What else the program does changes the session only, and takes no identity
back. -/
inductive Served : Store → Prop
  | start (session : Session) : Served { session }
  | session {s : Store} (session : Session) (h : s.session.identities ≤ session.identities) :
    Served s → Served { s with session }
  | call {s : Store} (c : Call) : Served s → Served (c.after s)

/-- A request begins with nothing that loads would have to keep but what is remembered. -/
theorem Rested.keeping (hs : s.Rested) (l : Library) :
    Keeping l s.session.choices s.renewed.generation [] s.renewed := by
  have hnone : ∀ q, ¬ s.renewed.Current q := fun q hq => Bool.false_ne_true ((hs.not_current q).symm.trans hq)
  exact ⟨rfl, Nat.le_refl _, hs.settled, hs.given, fun q hq => absurd hq (hnone q), fun q hq => absurd hq (hnone q),
    fun q _ hq => absurd hq (hnone q), fun q hq => absurd hq (hnone q), fun _ h => by cases h⟩

/-- A request does nothing, or keeps what loads keep. -/
theorem Rested.kept_after (hs : s.Rested) (c : Call) :
    c.after s = s ∨ Keeping c.library s.session.choices s.renewed.generation [] (c.after s) := by
  have hreload : ∀ l p, Keeping l s.session.choices s.renewed.generation [] (effect (Store.reload l p) s).2 := by
    intro l p
    rw [effect_reload]
    have hnew : ¬ s.renewed.Current p := fun hp => Bool.false_ne_true ((hs.not_current p).symm.trans hp)
    exact (load_obeys List.not_mem_nil (hs.keeping l) hnew).inv
  cases c with
  | reload l p => exact .inr (hreload l p)
  | get l p =>
    show (effect (Store.get l p) s).2 = s ∨ Keeping l _ _ [] (effect (Store.get l p) s).2
    cases hfound : l.locate p with
    | error e => exact .inl (effect_get_of_error hfound s)
    | ok found =>
      rw [effect_get_of_ok hfound]
      exact .inr (hreload l found)

theorem Served.rested (hs : s.Served) : s.Rested := by
  induction hs with
  | start session => exact rested_start session
  | session session h _ ih =>
    exact ⟨⟨ih.idle, ih.past, ih.settled⟩, fun id v hv => ElementId.GivenBy.mono (ih.given id v hv) h⟩
  | call c _ ih =>
    refine ⟨ih.toCalm.after c, ?_⟩
    rcases ih.kept_after c with hsame | hkept
    · rw [hsame]
      exact ih.given
    · exact hkept.dated

/-- When a request has loaded a registry, all is loaded. -/
theorem Served.loaded (hs : s.Served) {c : Call} (hloaded : ((c.after s).registry p).status = .loaded)
    (hnow : s.generation < ((c.after s).registry p).generation) : Loaded c.library s.session.choices (c.after s) p := by
  have hrested := hs.rested
  have hkept : Keeping c.library s.session.choices s.renewed.generation [] (c.after s) := by
    refine (hrested.kept_after c).resolve_left fun hsame => ?_
    rw [hsame] at hnow
    exact absurd (hrested.past p) (Nat.not_le_of_lt hnow)
  refine ⟨⟨_, hkept⟩, ?_⟩
  have hpast := (hrested.toCalm.after c).past p
  have hgeneration : (c.after s).generation = s.generation + 1 := hkept.generation
  have hsame : ((c.after s).registry p).generation = (c.after s).generation := by omega
  unfold Current Registry.isCurrent
  rw [hloaded, hsame]
  simp

/-- It is read with what is there, if the request has made no unseeded choice. -/
theorem Served.reading (hs : s.Served) {c : Call} (hchoices : (c.after s).session.choices = s.session.choices)
    (hloaded : ((c.after s).registry p).status = .loaded) (hnow : s.generation < ((c.after s).registry p).generation) :
    Reading c.library s.session.choices (c.after s) p := ⟨hs.loaded hloaded hnow, hchoices⟩

/-- After a request without an unseeded choice, every registry that it has loaded has defaults for all bits that it
shows. Those of a bit that it declares are what is worked out afresh, and those of a bit that it imports are
what is worked out afresh for the registry that declares it. -/
theorem Served.defaults_afresh (hs : s.Served) (c : Call) (hchoices : (c.after s).session.choices = s.session.choices)
    (hloaded : ((c.after s).registry p).status = .loaded) (hnow : s.generation < ((c.after s).registry p).generation) :
    (∀ b ∈ (c.after s).items .bits p, ∃ v, (c.after s).defaults? b.info.id = some v) ∧
    (∀ b ∈ (c.after s).own .bits p, ∀ v,
      (c.after s).defaults? b.info.id = some v ↔ (c.after s).GivesAfresh c.library p b v) ∧
    ∀ b ∈ (c.after s).items .bits p, ∃ q, (c.after s).Current q ∧ b ∈ (c.after s).own .bits q ∧ ∀ v,
      (c.after s).defaults? b.info.id = some v ↔ (c.after s).GivesAfresh c.library q b v := by
  obtain ⟨⟨_, hkept⟩, hcurrent⟩ := hs.loaded hloaded hnow
  have hafresh : ∀ q, (c.after s).Current q → ∀ b ∈ (c.after s).own .bits q, ∀ v,
      (c.after s).defaults? b.info.id = some v ↔ (c.after s).GivesAfresh c.library q b v := by
    intro q hq b hb v
    obtain ⟨w, hw, hgives⟩ := hkept.faithful q hq _ (.refl _) hchoices b hb
    rw [hw]
    exact ⟨fun h => by cases h; exact hgives, fun h => congrArg some (hgives.unique h)⟩
  refine ⟨fun b hb => hkept.settled p b hb, hafresh p hcurrent, fun b hb => ?_⟩
  obtain ⟨q, hq, hb⟩ := hkept.owned p hcurrent b hb
  exact ⟨q, hq, hb, hafresh q hq b hb⟩

namespace Shelf

/-- The first bit takes a bit of its own registry and one of another. -/
def nested : Library :=
  library ("imports:\n- registry: b.yml\nbits:\n- name: x\n  src: X\n  defaults:\n    queries:\n      parts:\n" ++
      "        where:\n          tags: [part]\n- name: z\n  tags: [part]\n  src: Z\n  defaults:\n    color: red\n")
    "bits:\n- name: y\n  tags: [part]\n  src: Y\n  defaults:\n    shade: dark\n"

/-- The store after a request for it. -/
def combined : Store := (Call.get nested a).after {}

end Shelf

/-- Two bits are declared, and one is imported. The first one has its parts in its defaults. -/
theorem Served.defaults_afresh_of_nested :
    (Shelf.combined.own .bits Shelf.a).length = 2 ∧
    (Shelf.combined.items .bits Shelf.a).map (fun b => (Shelf.combined.defaults? b.info.id).map (List.map Prod.fst)) =
      [some ["parts"], some ["color"], some ["shade"]] ∧
    ∀ b ∈ Shelf.combined.items .bits Shelf.a, ∃ q v, b ∈ Shelf.combined.own .bits q ∧
      Shelf.combined.defaults? b.info.id = some v ∧ Shelf.combined.GivesAfresh Shelf.nested q b v := by
  have hfacts : (Shelf.combined.session.choices = 0 ∧ (Shelf.combined.registry Shelf.a).status = .loaded ∧
      0 < (Shelf.combined.registry Shelf.a).generation) ∧ (Shelf.combined.own .bits Shelf.a).length = 2 ∧
      (Shelf.combined.items .bits Shelf.a).map
        (fun b => (Shelf.combined.defaults? b.info.id).map (List.map Prod.fst)) =
        [some ["parts"], some ["color"], some ["shade"]] := by
    decide +kernel
  obtain ⟨⟨hchoices, hloaded, hnow⟩, hown, hitems⟩ := hfacts
  obtain ⟨hsettled, -, hafresh⟩ := Served.defaults_afresh (.start {}) (.get Shelf.nested Shelf.a) hchoices hloaded hnow
  refine ⟨hown, hitems, fun b hb => ?_⟩
  obtain ⟨v, hv⟩ := hsettled b hb
  obtain ⟨q, -, hown, hgives⟩ := hafresh b hb
  exact ⟨q, v, hown, hv, (hgives v).mp hv⟩

end Store

end Bitpress

import Bitpress.Proofs.Load.Fate

/-!
Loads are all or nothing, for every registry in the store.

`Store.Reachable` are the stores that requests lead to, whatever becomes of the
files in between. After one more request, every registry shows what it showed
before or what one complete build has made; where the build failed, it is the
former (`Store.Reachable.all_or_nothing`).
-/

namespace Bitpress

/-- A request to the store, and the files that it finds. -/
inductive Call
  | get (l : Library) (p : Location)
  | reload (l : Library) (p : Location)

namespace Call

def library : Call → Library
  | .get l _ => l
  | .reload l _ => l

/-- The store that a request leaves, whether it fails or not. -/
def after : Call → Store → Store
  | .get l p, s => (effect (Store.get l p) s).2
  | .reload l p, s => (effect (Store.reload l p) s).2

end Call

namespace Store

/-- The stores that requests lead to. What else the program does changes the session only. -/
inductive Reachable : Store → Prop
  | start (session : Session) : Reachable { session }
  | session {s : Store} (session : Session) : Reachable s → Reachable { s with session }
  | call {s : Store} (c : Call) : Reachable s → Reachable (c.after s)

/-- No load is under way, and no registry is ahead of its store. -/
structure Calm (s : Store) : Prop where
  idle : ∀ p, (s.registry p).status ≠ .loading
  past : ∀ p, (s.registry p).generation ≤ s.generation
  settled : s.Settled

variable {s : Store} {p : Location}

/-- The store in which the loads of a request begin. -/
def renewed (s : Store) : Store := { s with generation := s.generation + 1 }

theorem effect_reload (l : Library) (p : Location) (s : Store) :
    effect (reload l p) s = effect (Load.load l l.extent (l.extent.files + 1) .full [] p) s.renewed := rfl

theorem effect_get_locate {l : Library} {q : Location} (h : l.locate p = .ok q) (s : Store) :
    effect (get l p) s = match effect (reload l q) s with
      | (.ok _, t) => (.ok (t.registry q), t)
      | (.error e, t) => (.error e, t) := by
  unfold get
  rw [h]
  change effect (do reload l q; return (← getThe Store).registry q) s = _
  rw [effect_bind]
  rcases effect (reload l q) s with ⟨_ | _, t⟩ <;> rfl

theorem effect_get_of_ok {l : Library} {found : Location} (h : l.locate p = .ok found) (s : Store) :
    (effect (get l p) s).2 = (effect (reload l found) s).2 := by
  rw [effect_get_locate h]
  rcases effect (reload l found) s with ⟨_ | _, t⟩ <;> rfl

theorem effect_get_of_error {l : Library} {e : Error} (h : l.locate p = .error e) (s : Store) :
    (effect (get l p) s).2 = s := by
  unfold get
  rw [h]
  rfl

/-- A request that succeeds has loaded the registry that it gives. -/
theorem get_eq_ok {l : Library} {r : Registry} {t : Store} (h : effect (get l p) s = (.ok r, t)) :
    ∃ root, l.locate p = .ok root ∧ effect (reload l root) s = (.ok (), t) ∧ r = t.registry root := by
  cases hlocate : l.locate p with
  | error e =>
    rw [get, hlocate] at h
    cases h
  | ok root =>
    rw [effect_get_locate hlocate] at h
    rcases hreload : effect (reload l root) s with ⟨_ | _, u⟩ <;> rw [hreload] at h <;> cases h
    exact ⟨root, rfl, hreload, rfl⟩

/-- One that fails has found no file, or the load of its registry has failed. -/
theorem get_eq_error {l : Library} {e : Error} {t : Store} (h : effect (get l p) s = (.error e, t)) :
    l.locate p = .error e ∨ ∃ root, l.locate p = .ok root ∧ effect (reload l root) s = (.error e, t) := by
  cases hlocate : l.locate p with
  | error e' =>
    rw [get, hlocate] at h
    cases h
    exact .inl rfl
  | ok root =>
    rw [effect_get_locate hlocate] at h
    rcases hreload : effect (reload l root) s with ⟨_ | _, u⟩ <;> rw [hreload] at h <;> cases h
    exact .inr ⟨root, rfl, hreload⟩

theorem Calm.not_current (h : s.Calm) (p : Location) :
    (s.renewed.registry p).isCurrent s.renewed.generation = false := by
  have hpast : (s.registry p).generation < s.generation + 1 := Nat.lt_succ_of_le (h.past p)
  show ((s.registry p).status == .loaded && (s.registry p).generation == s.generation + 1) = false
  rw [beq_false_of_ne (Nat.ne_of_lt hpast), Bool.and_false]

theorem Calm.reload_between (h : s.Calm) (l : Library) (p : Location) :
    (Load.passage l l.extent s.renewed.generation []).Between s.renewed (effect (Store.reload l p) s).1
      (effect (Store.reload l p) s).2 :=
  Load.load_between l l.extent (l.extent.files + 1) .full s.renewed List.not_mem_nil (h.not_current p)

theorem Calm.reload (h : s.Calm) (l : Library) (p : Location) :
    ∃ blamed, Load.Loads l l.extent [] blamed s.renewed (effect (Store.reload l p) s).2 := by
  have hbetween := h.reload_between l p
  rcases hreload : effect (Store.reload l p) s with ⟨r, t⟩
  rw [hreload] at hbetween
  cases r with
  | error e => exact ⟨e.loads, hbetween rfl⟩
  | ok a => exact ⟨[], hbetween rfl⟩

/-- A request does nothing, or what loads do in a new generation. -/
theorem Calm.loads (h : s.Calm) (c : Call) : c.after s = s ∨
    ∃ blamed, Load.Loads c.library c.library.extent [] blamed s.renewed (c.after s) := by
  cases c with
  | reload l p => exact .inr (h.reload l p)
  | get l p =>
    show (effect (get l p) s).2 = s ∨ _
    cases hfound : l.locate p with
    | error e => exact .inl (effect_get_of_error hfound s)
    | ok found =>
      obtain ⟨blamed, hloads⟩ := h.reload l found
      refine .inr ⟨blamed, ?_⟩
      rw [← effect_get_of_ok hfound s] at hloads
      exact hloads

theorem Calm.after (h : s.Calm) (c : Call) : (c.after s).Calm := by
  rcases h.loads c with hsame | ⟨blamed, events, hm, -, hfates⟩
  · rw [hsame]
    exact h
  · have hsettled : s.renewed.Settled := h.settled
    refine ⟨fun p => ?_, fun p => ?_, Load.Fate.settled (fun p => (hfates p).1) hm hsettled⟩
    · cases (hfates p).1 with
      | untouched hu => rw [hu.same]; exact h.idle p
      | built b _ _ _ _ _ _ _ made => rw [made]; simp
      | failed _ _ _ _ same => rw [same]; simp
    · have hpast : (s.registry p).generation ≤ s.renewed.generation := Nat.le_succ_of_le (h.past p)
      rw [hm.generation]
      cases (hfates p).1 with
      | untouched hu => rw [hu.same]; exact hpast
      | built b _ _ _ _ _ _ _ made => exact Nat.le_of_eq (by rw [made])
      | failed _ _ _ _ same => rw [same]; exact hpast

theorem Reachable.calm (h : Reachable s) : s.Calm := by
  induction h with
  | start session => exact ⟨fun p => by simp [registry, registry?], fun p => Nat.zero_le _, fun p b hb => by cases hb⟩
  | session session _ ih => exact ⟨ih.idle, ih.past, ih.settled⟩
  | call c _ ih => exact ih.after c

/-- A registry with the same contents shows the same. -/
theorem Settled.exposed_eq {t : Store} (h : s.Settled) (hd : KeepsDefaults s t)
    (hsame : (t.registry p).contents = (s.registry p).contents) : t.exposed p = s.exposed p := by
  unfold exposed
  rw [hsame]
  exact (h p).shown_eq hd

/-- After a request, each registry shows what it showed before or, with their defaults, the contents of
one complete build of the request; where the build failed, the former. No registry is left loading. -/
theorem Reachable.all_or_nothing (h : Reachable s) (c : Call) :
    ∃ events, (c.after s).trace = s.trace ++ events ∧ ∀ p,
      ((c.after s).registry p).status ≠ .loading ∧
      (.failed p ∈ events →
        ((c.after s).registry p).status = .failed ∧ (c.after s).exposed p = s.exposed p) ∧
      ((c.after s).exposed p = s.exposed p ∨
        ∃ b : Load.CompleteBuild c.library c.library.extent p, .loading p b.mode ∈ events ∧
          b.generation = (c.after s).generation ∧ s.trace <+: b.before.trace ∧
          b.after.trace <+: (c.after s).trace ∧ ((c.after s).registry p).status = .loaded ∧
          (c.after s).exposed p = b.after.shown b.contents) := by
  have hcalm := h.calm
  rcases hcalm.loads c with hsame | ⟨blamed, events, hm, -, hfates⟩
  · rw [hsame]
    exact ⟨[], (List.append_nil _).symm, fun p => ⟨hcalm.idle p, fun h => (by cases h), .inl rfl⟩⟩
  have hsettled : s.renewed.Settled := hcalm.settled
  refine ⟨events, hm.trace, fun p => ⟨(hcalm.after c).idle p, ?_⟩⟩
  cases (hfates p).1 with
  | untouched hu =>
    have hexposed : (c.after s).exposed p = s.exposed p := hsettled.exposed_eq hm.defaults (by rw [hu.same])
    refine ⟨fun hfailed => ?_, .inl hexposed⟩
    have := Load.mem_heard hfailed
    rw [LoadEvent.path, hu.silent] at this
    cases this
  | built b now new said start finish kept settled made =>
    refine ⟨fun hfailed => ?_, .inr ⟨b, ?_, now.trans hm.generation.symm, start, finish, by rw [made], ?_⟩⟩
    · have := Load.mem_heard hfailed
      rw [LoadEvent.path, said] at this
      cases List.mem_singleton.mp this
    · have : .loading p b.mode ∈ Load.heard p events := by
        rw [said]
        exact List.mem_singleton_self _
      exact (List.mem_filter.mp this).1
    · unfold exposed
      rw [made]
      exact (settled hsettled).shown_eq kept
  | failed mode fault new said same =>
    have hexposed : (c.after s).exposed p = s.exposed p :=
      hsettled.exposed_eq hm.defaults (by rw [same])
    exact ⟨fun _ => ⟨by rw [same], hexposed⟩, .inl hexposed⟩

namespace Shelf

/-- A registry and another one that it may import. -/
def library (a b : String) : Library :=
  { files := .dir [("a.yml", .file (.text a)), ("b.yml", .file (.text b))] }

def a : Location := ⟨"/a.yml"⟩

def b : Location := ⟨"/b.yml"⟩

def whole : Library :=
  library "imports:\n- registry: b.yml\nbits:\n- name: x\n  src: X\n" "bits:\n- name: y\n  src: one\n"

/-- The imported file has changed, and there is a target without a template. -/
def broken : Library :=
  library "imports:\n- registry: b.yml\ntargets:\n- name: t\n" "bits:\n- name: y\n  src: two\n"

def store : Store := (Call.get whole a).after {}

end Shelf

/-- The registry keeps its contents when its target fails, though its import is there anew by then. -/
theorem Reachable.all_or_nothing_of_broken :
    let s := (Call.get Shelf.broken Shelf.a).after Shelf.store
    (s.registry Shelf.a).status = .failed ∧ s.exposed Shelf.a = Shelf.store.exposed Shelf.a ∧
      (s.registry Shelf.b).contents.bits.items.map Bit.source = [.single "two"] := by
  have hreachable : Reachable Shelf.store := .call (.get Shelf.whole Shelf.a) (.start {})
  obtain ⟨events, htrace, hall⟩ := hreachable.all_or_nothing (.get Shelf.broken Shelf.a)
  have hsaid : ((Call.get Shelf.broken Shelf.a).after Shelf.store).trace =
      Shelf.store.trace ++ [.loading Shelf.a .full, .loading Shelf.b .dependency, .failed Shelf.a] := by
    decide +kernel
  have hevents := List.append_cancel_left (htrace.symm.trans hsaid)
  have hfailed : .failed Shelf.a ∈ events := by
    rw [hevents]
    simp
  obtain ⟨hstatus, hexposed⟩ := (hall Shelf.a).2.1 hfailed
  exact ⟨hstatus, hexposed, by decide +kernel⟩

end Store

end Bitpress

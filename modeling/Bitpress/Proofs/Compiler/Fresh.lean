import Bitpress.Proofs.Compiler.Call

/-!
A document that is not compiled again is the right one.

A compiler remembers which text it compiled last to each destination. As long as
every destination holds the document of this text (`Compiler.Fresh`), nothing stale
is served, and a call keeps it so, whether it succeeds or fails, with one exception:
where it fails to keep the engine's own files, its destination holds a new document
already, and the text that is remembered is still the old one (`Compiler.Spoils`).
As long as no call does this, each one that succeeds leaves the document of its
text at its destination (`Compiler.Reached.serves`).
-/

namespace Bitpress.Compiler

open Passage Workshop

/-- What a compiler is asked to do. -/
structure Job where
  text : String
  dest : Location
  options : OutputOptions

def Job.run (j : Job) (c : Compiler) : WorkshopM Artifact := c.compile j.text j.dest j.options

/-- The destinations of some jobs are different files, and none of them lies where a job changes files besides
its destination. -/
structure Apart (jobs : Job → Prop) : Prop where
  same : ∀ j k, jobs j → jobs k → j.dest.route = k.dest.route → j.dest.same k.dest = true
  beside : ∀ j k, jobs j → jobs k → ¬ Beside j.dest j.options k.dest.route

/-- Each destination holds the document of the text that was compiled to it last. -/
structure Fresh (jobs : Job → Prop) (product : String → FileContent) (w : Workshop) : Prop where
  named : w.files.Named
  known : ∀ e ∈ w.compiled, ∃ j, jobs j ∧ j.dest = e.1
  holds : ∀ e ∈ w.compiled, w.files.fileAt? e.1.route = some (product e.2)

variable {c : Compiler} {jobs : Job → Prop} {product : String → FileContent} {places : List String → Prop} {j : Job}
  {w w' : Workshop} {a : Artifact} {e : Error} {tex : Option Location}

theorem route_eq_of_same {p q : Location} (h : p.same q = true) : p.route = q.route := by
  unfold Location.route
  rw [eq_of_beq h]

namespace Fresh

theorem start {files : FileTree} (h : files.Named) : Fresh jobs product { files } :=
  ⟨h, fun _ he => (by cases he), fun _ he => (by cases he)⟩

/-- Changes that leave the destinations as they are. -/
theorem move (h : Fresh jobs product w) (hleaves : w.files.Leaves places w'.files) (hsame : w'.compiled = w.compiled)
    (hplaces : ∀ k, jobs k → places k.dest.route → w'.files.fileAt? k.dest.route = w.files.fileAt? k.dest.route) :
    Fresh jobs product w' := by
  refine ⟨hleaves.named h.named, fun e he => h.known e (hsame ▸ he), fun e he => ?_⟩
  rw [hsame] at he
  obtain ⟨k, hk, hdest⟩ := h.known e he
  have hheld := h.holds e he
  rw [← hdest] at hheld ⊢
  by_cases hplace : places k.dest.route
  · exact (hplaces k hk hplace).trans hheld
  · exact (hleaves.same _ hplace).trans hheld

theorem holds_of_compiled? (h : Fresh jobs product w) (hcompiled : w.compiled? j.dest = some j.text) :
    w.files.fileAt? j.dest.route = some (product j.text) := by
  obtain ⟨entry, hentry, htext⟩ := Option.map_eq_some_iff.mp hcompiled
  have hheld := h.holds entry (List.mem_of_find?_eq_some hentry)
  have hsame := List.find?_some hentry
  rw [htext, route_eq_of_same hsame] at hheld
  exact hheld

end Fresh

/-! ### One job -/

/-- What a call does when the text is written, or when it is not to be. -/
def typeset (c : Compiler) (j : Job) (tex : Option Location) : WorkshopM Artifact := do
  if !j.options.pdf then return { tex }
  if (← getThe Workshop).compiled? j.dest = some j.text then return { pdf := some j.dest, tex, skipped := true }
  c.makeSomewhere (stemOf j.dest) j.text j.dest j.options
  modifyThe Workshop fun w => w.remember j.dest j.text
  return { pdf := some j.dest, tex }

theorem run_eq (c : Compiler) (j : Job) :
    j.run c = if j.options.tex then (do
        writeText (j.dest.withExtension "tex") j.text
        c.typeset j (some (j.dest.withExtension "tex")))
      else c.typeset j none := by
  unfold Job.run compile typeset stemOf
  cases j.options.tex <;> rfl

/-- A document is at its destination. -/
def Serves (product : String → FileContent) (j : Job) (a : Artifact) (w : Workshop) : Prop :=
  ∀ p, a.pdf = some p → p = j.dest ∧ w.files.fileAt? p.route = some (product j.text)

section Jobs
variable (hc : c.Makes product) (hapart : Apart jobs) (hj : jobs j)

include hc hapart hj

theorem makeSomewhere_fresh (hw : Fresh jobs product w)
    (h : effect (c.makeSomewhere (stemOf j.dest) j.text j.dest j.options) w = (.ok (), w')) :
    Fresh jobs product (w'.remember j.dest j.text) ∧ w'.files.fileAt? j.dest.route = some (product j.text) := by
  obtain ⟨hleaves, hsame⟩ := (makeSomewhere_keeps hc j.text j.dest j.options).of_ok h hw.named
  have hmade := makeSomewhere_ok hc (hapart.beside j j hj hj) hw.named h
  refine ⟨⟨hleaves.named hw.named, fun e he => ?_, fun e he => ?_⟩, hmade⟩
  · rcases List.mem_cons.mp he with rfl | he
    · exact ⟨j, hj, rfl⟩
    · exact hw.known e (hsame ▸ (List.mem_filter.mp he).1)
  · rcases List.mem_cons.mp he with rfl | he
    · exact hmade
    · -- Every other destination is another file.
      obtain ⟨he, hother⟩ := List.mem_filter.mp he
      rw [hsame] at he
      obtain ⟨k, hk, hdest⟩ := hw.known e he
      have hheld := hw.holds e he
      rw [← hdest] at hheld hother ⊢
      refine (hleaves.same _ fun hplace => ?_).trans hheld
      rcases hplace with hroute | hbeside
      · rw [hapart.same k j hk hj hroute] at hother
        cases hother
      · exact hapart.beside j k hj hk hbeside

theorem typeset_ok (hw : Fresh jobs product w) (h : effect (c.typeset j tex) w = (.ok a, w')) :
    Fresh jobs product w' ∧ Serves product j a w' := by
  unfold typeset at h
  split at h
  · cases h
    exact ⟨hw, nofun⟩
  · obtain ⟨_, _, hget, h⟩ := effect_bind_eq_ok.mp h
    cases hget
    split at h
    · rename_i hcompiled
      cases h
      refine ⟨hw, fun p hp => ?_⟩
      cases hp
      exact ⟨rfl, hw.holds_of_compiled? hcompiled⟩
    · obtain ⟨_, w₁, hmake, h⟩ := effect_bind_eq_ok.mp h
      obtain ⟨hfresh, hmade⟩ := makeSomewhere_fresh hc hapart hj hw hmake
      cases h
      refine ⟨hfresh, fun p hp => ?_⟩
      cases hp
      exact ⟨rfl, hmade⟩

theorem typeset_error (hw : Fresh jobs product w) (h : effect (c.typeset j tex) w = (.error e, w'))
    (hkept : j.options.keep = .all → w'.files.fileAt? j.dest.route = w.files.fileAt? j.dest.route) :
    Fresh jobs product w' := by
  have hfails : effect (c.makeSomewhere (stemOf j.dest) j.text j.dest j.options) w = (.error e, w') := by
    unfold typeset at h
    split at h
    · cases h
    · rw [effect_bind, effect_get] at h
      dsimp only at h
      split at h
      · cases h
      · rcases effect_bind_eq_error.mp h with hmake | ⟨_, _, -, h⟩
        · exact hmake
        · cases h
  by_cases hkeep : j.options.keep = .all
  · obtain ⟨hleaves, hsame⟩ := (makeSomewhere_keeps hc j.text j.dest j.options).of_error hfails hw.named
    refine hw.move hleaves hsame fun k hk hplace => ?_
    rcases hplace with hroute | hbeside
    · rw [hroute]
      exact hkept hkeep
    · exact absurd hbeside (hapart.beside j k hj hk)
  · obtain ⟨hleaves, hsame⟩ := (makeSomewhere_fails hc j.text j.dest hkeep).error _ _ _ hfails hw.named
    exact hw.move hleaves hsame fun k hk hbeside => absurd hbeside (hapart.beside j k hj hk)

omit hc in
/-- The text is no destination. -/
theorem writeText_fresh (hw : Fresh jobs product w) {r : Outcome Unit}
    (h : effect (writeText (j.dest.withExtension "tex") j.text) w = (r, w')) :
    Fresh jobs product w' ∧ w'.files.fileAt? j.dest.route = w.files.fileAt? j.dest.route := by
  have htext : ∀ k, jobs k → k.dest.route ≠ (j.dest.withExtension "tex").route := fun k hk he =>
    hapart.beside j k hj hk (.inl he)
  have hbetween := (writeText_keeps (j.dest.withExtension "tex") j.text).between w
  rw [h] at hbetween
  obtain ⟨hleaves, hsame⟩ : w.files.Leaves (· = _) w'.files ∧ w'.compiled = w.compiled := by
    cases r <;> exact hbetween hw.named
  exact ⟨hw.move hleaves hsame fun k hk he => absurd he (htext k hk), hleaves.same _ (htext j hj)⟩

/-- A call that succeeds. -/
theorem run_ok (hw : Fresh jobs product w) (h : effect (j.run c) w = (.ok a, w')) :
    Fresh jobs product w' ∧ Serves product j a w' := by
  rw [run_eq] at h
  split at h
  · obtain ⟨_, w₁, htext, h⟩ := effect_bind_eq_ok.mp h
    exact typeset_ok hc hapart hj (writeText_fresh hapart hj hw htext).1 h
  · exact typeset_ok hc hapart hj hw h

/-- A call that fails, but not where it keeps the engine's own files after its destination has changed. -/
theorem run_error (hw : Fresh jobs product w) (h : effect (j.run c) w = (.error e, w'))
    (hkept : j.options.keep = .all → w'.files.fileAt? j.dest.route = w.files.fileAt? j.dest.route) :
    Fresh jobs product w' := by
  rw [run_eq] at h
  split at h
  · rcases effect_bind_eq_error.mp h with htext | ⟨_, w₁, htext, h⟩
    · exact (writeText_fresh hapart hj hw htext).1
    · obtain ⟨hfresh, hsame⟩ := writeText_fresh hapart hj hw htext
      exact typeset_error hc hapart hj hfresh h fun hall => (hkept hall).trans hsame.symm
  · exact typeset_error hc hapart hj hw h hkept

end Jobs

/-! ### All jobs -/

/-- A call fails to keep the engine's own files when its destination holds a new document already. -/
def Spoils (c : Compiler) (w : Workshop) (j : Job) : Prop :=
  j.options.keep = .all ∧ ∃ e w', effect (j.run c) w = (.error e, w') ∧
    w'.files.fileAt? j.dest.route ≠ w.files.fileAt? j.dest.route

/-- The workshops that some jobs lead to, in any order and as often as one likes. In between, others may change
files, but not the destinations. -/
inductive Reached (c : Compiler) (jobs : Job → Prop) : Workshop → Prop
  | start {files : FileTree} (named : files.Named) : Reached c jobs { files }
  | elsewhere {w : Workshop} {files : FileTree} (before : Reached c jobs w) (named : files.Named)
      (same : ∀ j, jobs j → files.fileAt? j.dest.route = w.files.fileAt? j.dest.route) :
      Reached c jobs { w with files }
  | call {w : Workshop} {j : Job} (before : Reached c jobs w) (asked : jobs j) (sound : ¬ c.Spoils w j) :
      Reached c jobs (effect (j.run c) w).2

theorem Reached.fresh (hc : c.Makes product) (hapart : Apart jobs) (h : Reached c jobs w) : Fresh jobs product w := by
  induction h with
  | start named => exact .start named
  | elsewhere before named same ih =>
    exact ih.move ⟨fun _ hplace => absurd trivial hplace, fun _ => named⟩ rfl fun k hk _ => same k hk
  | @call w j before asked sound ih =>
    rcases hrun : effect (j.run c) w with ⟨e | a, w'⟩
    · refine run_error hc hapart asked ih hrun fun hall => ?_
      by_contra hne
      exact sound ⟨hall, e, w', hrun, hne⟩
    · exact (run_ok hc hapart asked ih hrun).1

/-- A call that succeeds leaves the document of its text at its destination, also where it compiles nothing, as
long as no call before it has spoiled its own destination. -/
theorem Reached.serves (hc : c.Makes product) (hapart : Apart jobs) (h : Reached c jobs w) (hj : jobs j)
    (hrun : effect (j.run c) w = (.ok a, w')) : Serves product j a w' :=
  (run_ok hc hapart hj (h.fresh hc hapart) hrun).2

/-! ### An engine

Engines of the kind that is asked for exist: the document of this one is the text. With it, a call that spoils its
destination makes the next one serve what is stale. -/

/-- Copies the text. -/
def copier : Program := fun i t =>
  match i.arguments.getLast?.bind (Text.withoutEnd? ".tex") with
  | none => (.code 1, t)
  | some stem =>
    let source := i.directory.join ⟨stem ++ ".tex"⟩
    let made := i.directory.join ⟨stem ++ ".pdf"⟩
    if source.route = i.directory.route ++ [stem ++ ".tex"] ∧ made.route = i.directory.route ++ [stem ++ ".pdf"] then
      match t.copy source made with
      | .ok t' => (.code 0, t')
      | .error _ => (.code 1, t)
    else (.code 1, t)

def copying : Compiler where
  engine := { command := "copy", args := [] }
  programs _ := .ok copier

theorem withoutEnd?_append (s extension : String) : Text.withoutEnd? extension (s ++ extension) = some s := by
  unfold Text.withoutEnd?
  rw [String.toList_append, List.reverse_append, Text.after?_append]
  simp

theorem copying_makes : copying.Makes .text where
  inside program hprogram i t := by
    cases hprogram
    unfold copier
    split
    · exact .refl _ t
    · dsimp only
      split
      · rename_i stem _ hroutes
        split
        · rename_i t' hcopy
          refine (FileTree.copy_eq_ok hcopy).1.mono fun route he => ?_
          rw [he, hroutes.2]
          exact List.prefix_append _ _
        · exact .refl _ t
      · exact .refl _ t
  made program hprogram work stem text environment t content := by
    cases hprogram
    intro run htext hsucceeded hpdf
    have hstem : (copying.engine.args ++ [stem ++ ".tex"]).getLast?.bind (Text.withoutEnd? ".tex") = some stem :=
      withoutEnd?_append stem ".tex"
    unfold run copier at hsucceeded hpdf
    dsimp only at hsucceeded hpdf
    rw [hstem] at hsucceeded hpdf
    dsimp only at hsucceeded hpdf
    split at hpdf
    · rename_i hroutes
      split at hpdf
      · rename_i t' hcopy
        obtain ⟨-, read, hread, hcopied⟩ := FileTree.copy_eq_ok hcopy
        have hapart : (work.join ⟨stem ++ ".tex"⟩).route ≠ (work.join ⟨stem ++ ".pdf"⟩).route := by
          rw [hroutes.1, hroutes.2]
          simp
        cases hread.symm.trans htext
        exact (Option.some.inj ((hcopied hapart).symm.trans hpdf)).symm
      · rename_i hcopy
        rw [if_pos hroutes, hcopy] at hsucceeded
        cases hsucceeded
    · rename_i hroutes
      rw [if_neg hroutes] at hsucceeded
      cases hsucceeded

namespace Desk

/-- A file stands where a directory is to be made. -/
def files : FileTree := .dir [("block", .file (.text "x")), ("tmp", .dir []), ("out", .dir [])]

def dest : Location := ⟨"/out/doc.pdf"⟩

def plain (text : String) : Job := ⟨text, dest, {}⟩

/-- The engine's own files are to be kept below the file. -/
def blocked (text : String) : Job := ⟨text, dest, { keep := .all, intermediatesDir := some ⟨"/block"⟩ }⟩

def first : Workshop := (effect ((plain "A").run copying) { files }).2

def second : Workshop := (effect ((blocked "B").run copying) first).2

end Desk

/-- After a call that has spoiled its destination, the next one serves the document of another text. -/
theorem stale_after_spoiling :
    copying.Spoils Desk.first (Desk.blocked "B") ∧ ∃ a w',
      effect ((Desk.plain "A").run copying) Desk.second = (.ok a, w') ∧ a.pdf = some Desk.dest ∧
        w'.files.readText Desk.dest = .ok "B" := by
  have hfirst : (Desk.first.files.fileAt? Desk.dest.route).bind FileContent.text? = some "A" := by decide +kernel
  have hsecond : (Desk.second.files.fileAt? Desk.dest.route).bind FileContent.text? = some "B" := by decide +kernel
  have hfails : (effect ((Desk.blocked "B").run copying) Desk.first).1.toOption = none := by decide +kernel
  have hserved : (effect ((Desk.plain "A").run copying) Desk.second).1.toOption =
      some { pdf := some Desk.dest, skipped := true } := by decide +kernel
  have hstale : (effect ((Desk.plain "A").run copying) Desk.second).2.files.readText Desk.dest = .ok "B" :=
    Outcome.toOption_eq_some.mp (by decide +kernel)
  refine ⟨⟨rfl, ?_⟩, ?_⟩
  · rcases hrun : effect ((Desk.blocked "B").run copying) Desk.first with ⟨e | a, w'⟩
    · have hafter : Desk.second = w' := congrArg Prod.snd hrun
      refine ⟨e, w', rfl, fun hsame => ?_⟩
      have hsame : w'.files.fileAt? Desk.dest.route = Desk.first.files.fileAt? Desk.dest.route := hsame
      rw [hafter, hsame, hfirst] at hsecond
      exact absurd hsecond (by decide)
    · rw [hrun] at hfails
      cases hfails
  · exact ⟨_, _, Prod.ext (Outcome.toOption_eq_some.mp hserved) rfl, rfl, hstale⟩

end Bitpress.Compiler

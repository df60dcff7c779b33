import Bitpress.Compiler
import Bitpress.Proofs.Compiler.Files
import Bitpress.Proofs.Step

/-!
What a call of a compiler changes.

A call writes the text beside its destination, works in its work directory, and
keeps the engine's own files or its log where it is told to (`Compiler.Beside`).
Everywhere else it changes its destination at most, and this last of all unless
the engine's own files are kept afterwards (`makeSomewhere_keeps`,
`makeSomewhere_fails`). If it succeeds, the destination holds what the engine has
made of the text (`makeSomewhere_ok`).
-/

namespace Bitpress

/-! ### Steps on files -/

namespace Passage

variable {α : Type} {places more : List String → Prop}

/-- Steps that change files at some places at most, and forget nothing; all files have names. -/
def leaving (places : List String → Prop) : Passage Workshop where
  ok w w' := w.files.Named → w.files.Leaves places w'.files ∧ w'.compiled = w.compiled
  err _ w w' := w.files.Named → w.files.Leaves places w'.files ∧ w'.compiled = w.compiled
  refl w _ := ⟨.refl places w.files, rfl⟩
  trans h h' hw :=
    have ⟨hleaves, hsame⟩ := h hw
    have ⟨hleaves', hsame'⟩ := h' (hleaves.named hw)
    ⟨hleaves.trans hleaves', hsame'.trans hsame⟩
  fail _ w _ := ⟨.refl places w.files, rfl⟩
  wrap h _ := h
  trans_err h h' hw :=
    have ⟨hleaves, hsame⟩ := h hw
    have ⟨hleaves', hsame'⟩ := h' (hleaves.named hw)
    ⟨hleaves.trans hleaves', hsame'.trans hsame⟩

theorem Keeps.elsewhere {x : WorkshopM α} (hx : (leaving places).Keeps x)
    (hmore : ∀ route, places route → more route) : (leaving more).Keeps x :=
  hx.mono (fun _ _ h hw => ⟨(h hw).1.mono hmore, (h hw).2⟩) fun _ _ _ h hw => ⟨(h hw).1.mono hmore, (h hw).2⟩

/-- What reads the workshop first has to keep it from where it is. -/
theorem Keeps.get_bind {f : Workshop → WorkshopM α} (hf : ∀ w, w.files.Named → (leaving places).Keeps (f w)) :
    (leaving places).Keeps (getThe Workshop >>= f) := by
  refine ⟨fun w => ?_⟩
  rw [effect_bind, effect_get]
  dsimp only
  by_cases hw : w.files.Named
  · exact (hf w hw).between w
  · cases (effect (f w) w).1 with
    | error e => exact fun h => absurd h hw
    | ok a => exact fun h => absurd h hw

end Passage

open Passage

namespace Workshop

variable {places : List String → Prop} {w : Workshop}

theorem effect_onFiles (change : FileTree → Except FileFault FileTree) (w : Workshop) :
    effect (onFiles change) w = match change w.files with
      | .ok files => (.ok (), { w with files })
      | .error fault => (.error (.file fault), w) := by
  unfold onFiles
  rw [effect_bind, effect_get]
  dsimp only
  cases change w.files <;> rfl

theorem onFiles_eq_ok {change : FileTree → Except FileFault FileTree} {w' : Workshop}
    (h : effect (onFiles change) w = (.ok (), w')) : ∃ files, change w.files = .ok files ∧ w' = { w with files } := by
  rw [effect_onFiles] at h
  split at h
  · rename_i files hfiles
    cases h
    exact ⟨files, hfiles, rfl⟩
  · cases h

theorem onFiles_keeps {change : FileTree → Except FileFault FileTree}
    (h : ∀ t t', change t = .ok t' → t.Leaves places t') : (leaving places).Keeps (onFiles change) := by
  refine ⟨fun w => ?_⟩
  rw [effect_onFiles]
  cases hchange : change w.files with
  | error fault => exact (leaving places).refl w
  | ok files => exact fun _ => ⟨h _ _ hchange, rfl⟩

/-- A change that fails is none. -/
theorem onFiles_fails (change : FileTree → Except FileFault FileTree) : (leaving places).Fails (onFiles change) := by
  refine ⟨fun w e w' h => ?_⟩
  rw [effect_onFiles] at h
  split at h
  · cases h
  · cases h
    exact (leaving places).refl w

theorem makeParent_keeps (p : Location) : (leaving places).Keeps (onFiles fun t => t.makeParent p) :=
  onFiles_keeps fun _ _ h => (FileTree.makeParent_leaves h).mono fun _ => False.elim

theorem makeDirectory_keeps (p : Location) : (leaving places).Keeps (onFiles fun t => t.makeDirectory p) :=
  onFiles_keeps fun _ _ h => (FileTree.makeDirectory_leaves h).mono fun _ => False.elim

theorem deliver_fails (source dest : Location) : (leaving places).Fails (deliver source dest) :=
  .bind (makeParent_keeps dest) fun _ => onFiles_fails _

theorem deliver_keeps (source dest : Location) : (leaving (· = dest.route)).Keeps (deliver source dest) :=
  .bind (makeParent_keeps dest) fun _ => onFiles_keeps fun _ _ h => (FileTree.copy_eq_ok h).1

theorem writeText_keeps (tex : Location) (text : String) : (leaving (· = tex.route)).Keeps (writeText tex text) := by
  have hwrite : (leaving (· = tex.route)).Keeps (do
      onFiles fun t => t.makeParent tex
      onFiles fun t => t.write tex (.text text)) :=
    .bind (makeParent_keeps tex) fun _ => onFiles_keeps fun _ _ h => (FileTree.write_eq_ok h).2
  refine .bind .get fun w => ?_
  split
  · split
    · exact .pure _
    · exact hwrite
  · exact hwrite

theorem makeFresh_keeps (directory : Location) : (leaving (directory.route <+: ·)).Keeps (makeFresh directory) := by
  refine .bind .get fun w => ?_
  dsimp only
  split
  · exact .bind (onFiles_keeps fun _ _ h => FileTree.remove_leaves h) fun _ => makeDirectory_keeps directory
  · split
    · exact .bind (.throw rfl) fun _ => makeDirectory_keeps directory
    · exact makeDirectory_keeps directory

end Workshop

/-! ### One call -/

namespace Compiler

open Workshop

/-- The name of the files that belong to a destination, without an extension. -/
def stemOf (dest : Location) : String := dest.stem?.getD "document"

def workIn (dest : Location) (o : OutputOptions) : Location :=
  match o.buildDir with
  | some directory => directory.join ⟨stemOf dest⟩
  | none => scratch

def logBeside (dest : Location) : Location :=
  (dest.parent?.getD ⟨""⟩).join ⟨stemOf dest ++ "_latex_error.log"⟩

/-- Where a call changes files, besides its destination. -/
def Beside (dest : Location) (o : OutputOptions) (route : List String) : Prop :=
  route = (dest.withExtension "tex").route ∨ route = (logBeside dest).route ∨
    (workIn dest o).route <+: route ∨ (keptIn dest o).route <+: route

/-- An engine that changes its own directory only, and that leaves there, when it succeeds, a document which
depends on nothing but the text. -/
structure Makes (c : Compiler) (product : String → FileContent) : Prop where
  inside : ∀ program, c.programs c.engine.command = .ok program → ∀ (i : Invocation) (t : FileTree),
    t.Leaves (i.directory.route <+: ·) (program i t).2
  made : ∀ program, c.programs c.engine.command = .ok program → ∀ (work : Location) stem text environment t content,
    let run := program ⟨c.engine.args ++ [stem ++ ".tex"], work, environment⟩ t
    t.fileAt? (work.join ⟨stem ++ ".tex"⟩).route = some (.text text) → run.1.succeeded = true →
    run.2.fileAt? (work.join ⟨stem ++ ".pdf"⟩).route = some content → content = product text

variable {c : Compiler} {product : String → FileContent} {work dest : Location} {text : String}
  {o : OutputOptions} {w w' : Workshop} {e : Error}

/-- The environment that the engine is started in. -/
def environmentIn (c : Compiler) (work : Location) : Table String :=
  if c.environment.hasKey "TEXMFVAR" then c.environment else c.environment.put "TEXMFVAR" work.text

theorem effect_execute (c : Compiler) (work : Location) (name : String) (w : Workshop) :
    effect (c.execute work name) w = match c.programs c.engine.command with
      | .error fault => (.error (.file fault), w)
      | .ok program =>
        let run := program ⟨c.engine.args ++ [name], work, c.environmentIn work⟩ w.files
        (.ok run.1, { w with files := run.2 }) := by
  unfold execute
  cases c.programs c.engine.command <;> rfl

theorem execute_keeps (hc : c.Makes product) (work : Location) (name : String) :
    (leaving (work.route <+: ·)).Keeps (c.execute work name) := by
  refine ⟨fun w => ?_⟩
  rw [effect_execute]
  cases hprogram : c.programs c.engine.command with
  | error fault => exact (leaving _).refl w
  | ok program =>
    exact fun _ => ⟨hc.inside program hprogram ⟨c.engine.args ++ [name], work, c.environmentIn work⟩ w.files, rfl⟩

theorem keepIntermediates_keeps (work dest : Location) (o : OutputOptions) :
    (leaving ((keptIn dest o).route <+: ·)).Keeps (keepIntermediates work dest o) := by
  refine .bind (makeDirectory_keeps _) fun _ => ?_
  refine .get_bind fun w hw => ?_
  refine .bind (.forIn (fun name hname _ => .bind (onFiles_keeps fun t t' h => ?_) fun _ => .pure _) _) fun _ => .pure _
  refine (FileTree.copy_eq_ok h).1.mono fun route he => ?_
  rw [he, Location.route_join _ (hw.fileNames work name hname)]
  exact List.prefix_append _ _

theorem saveLog_keeps (log dest : Location) :
    (leaving (· = (logBeside dest).route)).Keeps (saveLog log dest (stemOf dest)) := by
  refine .bind .get fun w => ?_
  split
  · exact .bind (deliver_keeps _ _) fun _ => .pure _
  · exact .pure none

/-- What follows a run of the engine that has failed. -/
def giveUp (log dest : Location) (stem : String) (o : OutputOptions) (work : Location) (status : ExitStatus) :
    WorkshopM Unit := do
  let report := reportOf (← getThe Workshop).files log status
  let saved ← saveLog log dest stem
  if o.keep ≠ .none then keepIntermediates work dest o
  throw (.compile "LaTeX compilation failed" report saved)

/-- What follows one that has succeeded. -/
def finish (work dest : Location) (stem : String) (o : OutputOptions) : WorkshopM Unit := do
  deliver (work.join ⟨stem ++ ".pdf"⟩) dest
  if o.keep = .all then keepIntermediates work dest o

theorem make_eq (c : Compiler) (work : Location) (stem text : String) (dest : Location) (o : OutputOptions) :
    c.make work stem text dest o = (do
      onFiles fun t => t.write (work.join ⟨stem ++ ".tex"⟩) (.text text)
      let status ← c.execute work (stem ++ ".tex")
      if status.succeeded then finish work dest stem o
      else giveUp (work.join ⟨stem ++ ".log"⟩) dest stem o work status) := rfl

/-! Names in the work directory. -/

theorem isName_of_stem {extension : String} (hwhole : ∀ ch ∈ extension.toList, (ch == '/') = false)
    (hne : extension.toList ≠ []) (hdot : extension.toList.getLast? ≠ some '.') (dest : Location) :
    Location.IsName (stemOf dest ++ extension) := by
  have hlast : (stemOf dest ++ extension).toList.getLast? ≠ some '.' := by
    rw [String.toList_append, List.getLast?_append_of_ne_nil _ hne]
    exact hdot
  refine ⟨?_, fun ch hch => ?_⟩
  · unfold Location.partOf
    rw [if_neg, if_neg, String.ofList_toList]
    · intro he
      exact hlast (he ▸ rfl)
    · rintro (he | he)
      · rw [String.toList_append] at he
        exact hne (List.append_eq_nil_iff.mp he).2
      · exact hlast (he ▸ rfl)
  · rw [String.toList_append] at hch
    exact (List.mem_append.mp hch).elim (dest.stem_whole (by simp) ch) (hwhole ch)

/-- The text and the document lie in the work directory. -/
theorem route_work (work dest : Location) :
    work.route <+: (work.join ⟨stemOf dest ++ ".tex"⟩).route ∧
      work.route <+: (work.join ⟨stemOf dest ++ ".pdf"⟩).route := by
  rw [Location.route_join work (isName_of_stem (by simp) (by simp) (by simp) dest),
    Location.route_join work (isName_of_stem (by simp) (by simp) (by simp) dest)]
  exact ⟨List.prefix_append _ _, List.prefix_append _ _⟩

theorem giveUp_keeps (log work dest : Location) (o : OutputOptions) (status : ExitStatus) :
    (leaving (Beside dest o)).Keeps (giveUp log dest (stemOf dest) o work status) := by
  refine .bind .get fun w => .bind ((saveLog_keeps log dest).elsewhere fun _ h => .inr (.inl h)) fun saved => ?_
  dsimp only
  split
  · exact .bind ((keepIntermediates_keeps work dest o).elsewhere fun _ h => .inr (.inr (.inr h))) fun _ => .throw rfl
  · exact .throw rfl

theorem finish_keeps (work dest : Location) (stem : String) (o : OutputOptions) :
    (leaving fun route => route = dest.route ∨ Beside dest o route).Keeps (finish work dest stem o) := by
  refine .bind ((deliver_keeps _ dest).elsewhere fun _ h => .inl h) fun _ => ?_
  split
  · exact (keepIntermediates_keeps work dest o).elsewhere fun _ h => .inr (.inr (.inr (.inr h)))
  · exact .pure _

/-- The document is the last thing that changes, if the engine's own files are not kept. -/
theorem finish_fails (work dest : Location) (stem : String) (h : o.keep ≠ .all) :
    (leaving (Beside dest o)).Fails (finish work dest stem o) := by
  unfold finish
  rw [if_neg h]
  exact .bind_pure (deliver_fails _ dest)

theorem write_keeps (text : String) (dest : Location) (o : OutputOptions) :
    (leaving (Beside dest o)).Keeps
      (onFiles fun t => t.write ((workIn dest o).join ⟨stemOf dest ++ ".tex"⟩) (.text text)) := by
  refine onFiles_keeps fun _ _ h => (FileTree.write_eq_ok h).2.mono fun route he => .inr (.inr (.inl ?_))
  rw [he]
  exact (route_work _ dest).1

theorem make_keeps (hc : c.Makes product) (text : String) (dest : Location) (o : OutputOptions) :
    (leaving fun route => route = dest.route ∨ Beside dest o route).Keeps
      (c.make (workIn dest o) (stemOf dest) text dest o) := by
  rw [make_eq]
  refine .bind ((write_keeps text dest o).elsewhere fun _ => .inr) fun _ => ?_
  refine .bind ((execute_keeps hc _ _).elsewhere fun _ h => .inr (.inr (.inr (.inl h)))) fun status => ?_
  split
  · exact finish_keeps _ dest _ o
  · exact (giveUp_keeps _ _ dest o status).elsewhere fun _ => .inr

theorem make_fails (hc : c.Makes product) (text : String) (dest : Location) (h : o.keep ≠ .all) :
    (leaving (Beside dest o)).Fails (c.make (workIn dest o) (stemOf dest) text dest o) := by
  rw [make_eq]
  refine .bind (write_keeps text dest o) fun _ => ?_
  refine .bind ((execute_keeps hc _ _).elsewhere fun _ h => .inr (.inr (.inl h))) fun status => ?_
  split
  · exact finish_fails _ dest _ h
  · exact (giveUp_keeps _ _ dest o status).fails

theorem giveUp_ne_ok {log : Location} {stem : String} {status : ExitStatus} :
    effect (giveUp log dest stem o work status) w ≠ (.ok (), w') := by
  intro h
  obtain ⟨_, _, -, h⟩ := effect_bind_eq_ok.mp h
  obtain ⟨_, _, -, h⟩ := effect_bind_eq_ok.mp h
  dsimp only at h
  split at h
  · obtain ⟨_, _, -, h⟩ := effect_bind_eq_ok.mp h
    cases h
  · cases h

/-- What is delivered from elsewhere is a file that was there. -/
theorem deliver_ok {source : Location} (hapart : source.route ≠ dest.route)
    (h : effect (deliver source dest) w = (.ok (), w')) :
    ∃ content, w.files.fileAt? source.route = some content ∧ w'.files.fileAt? dest.route = some content := by
  obtain ⟨_, w₁, hparent, hcopy⟩ := effect_bind_eq_ok.mp h
  obtain ⟨files₁, hmade, rfl⟩ := onFiles_eq_ok hparent
  obtain ⟨files', hcopied, rfl⟩ := onFiles_eq_ok hcopy
  obtain ⟨-, content, hsource, hcopied⟩ := FileTree.copy_eq_ok hcopied
  rw [(FileTree.makeParent_leaves hmade).same _ not_false] at hsource
  exact ⟨content, hsource, hcopied hapart⟩

/-- A run of the engine that succeeds leaves the document in its directory, and there it is copied from. -/
theorem make_ok (hc : c.Makes product) (hdest : ¬ Beside dest o dest.route) (hw : w.files.Named)
    (h : effect (c.make (workIn dest o) (stemOf dest) text dest o) w = (.ok (), w')) :
    w'.files.fileAt? dest.route = some (product text) := by
  have hbeside : ∀ route, (workIn dest o).route <+: route → route ≠ dest.route := fun route hwork he =>
    hdest (.inr (.inr (.inl (he ▸ hwork))))
  rw [make_eq] at h
  obtain ⟨_, w₁, hwrite, h⟩ := effect_bind_eq_ok.mp h
  obtain ⟨status, w₂, hrun, h⟩ := effect_bind_eq_ok.mp h
  obtain ⟨hleaves₁, -⟩ := (write_keeps text dest o).of_ok hwrite hw
  have hw₁ := hleaves₁.named hw
  obtain ⟨files₁, htext, rfl⟩ := onFiles_eq_ok hwrite
  obtain ⟨hleaves₂, -⟩ := (execute_keeps hc _ _).of_ok hrun hw₁
  have hw₂ := hleaves₂.named hw₁
  rw [effect_execute] at hrun
  split at hrun
  · cases hrun
  · rename_i program hprogram
    cases hrun
    split at h
    · rename_i hsucceeded
      obtain ⟨_, w₃, hdeliver, hkeep⟩ := effect_bind_eq_ok.mp h
      have hmade : w₃.files.fileAt? dest.route = some (product text) := by
        obtain ⟨content, hpdf, hdelivered⟩ := deliver_ok (hbeside _ (route_work _ dest).2) hdeliver
        rw [hdelivered]
        exact congrArg some (hc.made program hprogram _ _ _ _ _ content (FileTree.write_eq_ok htext).1 hsucceeded hpdf)
      obtain ⟨hleaves₃, -⟩ := (deliver_keeps _ dest).of_ok hdeliver hw₂
      split at hkeep
      · have hleaves := ((keepIntermediates_keeps _ dest o).of_ok hkeep (hleaves₃.named hw₂)).1
        exact (hleaves.same _ fun hkept => hdest (.inr (.inr (.inr hkept)))).trans hmade
      · cases hkeep
        exact hmade
    · -- The engine has failed, and so does the call.
      exact absurd h giveUp_ne_ok

/-! In a directory that is kept, or in one that is removed. -/

/-- Removes the scratch directory, if it is there. -/
def tidy (w : Workshop) : Workshop := { w with files := (w.files.remove scratch).toOption.getD w.files }

theorem tidy_leaves (w : Workshop) : w.files.Leaves (scratch.route <+: ·) (tidy w).files := by
  unfold tidy
  cases h : w.files.remove scratch with
  | error fault => exact .refl _ w.files
  | ok files => exact FileTree.remove_leaves h

section Tidying
variable {x : WorkshopM Unit} {places : List String → Prop} (hscratch : ∀ route, scratch.route <+: route → places route)

include hscratch

theorem leaves_tidy (h : w.files.Named → w.files.Leaves places w'.files ∧ w'.compiled = w.compiled) :
    w.files.Named → w.files.Leaves places (tidy w').files ∧ (tidy w').compiled = w.compiled := fun hw =>
  have ⟨hleaves, hsame⟩ := h hw
  ⟨hleaves.trans ((tidy_leaves w').mono hscratch), hsame⟩

theorem tidy_keeps (hx : (leaving places).Keeps x) :
    (leaving places).Keeps (try x finally modifyThe Workshop tidy) := by
  refine ⟨fun w => ?_⟩
  rw [effect_finally]
  rcases h : effect x w with ⟨_ | _, w'⟩
  · exact leaves_tidy hscratch (hx.of_error h)
  · exact leaves_tidy hscratch (hx.of_ok h)

theorem tidy_fails (hx : (leaving places).Fails x) :
    (leaving places).Fails (try x finally modifyThe Workshop tidy) := by
  refine ⟨fun w e w' h => ?_⟩
  rw [effect_finally] at h
  rcases hrun : effect x w with ⟨_ | _, t⟩
  · rw [hrun] at h
    cases h
    exact leaves_tidy hscratch (hx.error w _ t hrun)
  · rw [hrun] at h
    cases h

end Tidying

theorem makeSomewhere_eq (c : Compiler) (text : String) (dest : Location) (o : OutputOptions) :
    c.makeSomewhere (stemOf dest) text dest o = (do
      makeFresh (workIn dest o)
      match o.buildDir with
      | some _ => c.make (workIn dest o) (stemOf dest) text dest o
      | none => try c.make (workIn dest o) (stemOf dest) text dest o finally modifyThe Workshop tidy) := by
  unfold makeSomewhere workIn
  cases o.buildDir <;> rfl

theorem scratch_beside (h : o.buildDir = none) (route : List String) (hroute : scratch.route <+: route) :
    Beside dest o route := by
  refine .inr (.inr (.inl ?_))
  unfold workIn
  rw [h]
  exact hroute

theorem makeSomewhere_keeps (hc : c.Makes product) (text : String) (dest : Location) (o : OutputOptions) :
    (leaving fun route => route = dest.route ∨ Beside dest o route).Keeps
      (c.makeSomewhere (stemOf dest) text dest o) := by
  rw [makeSomewhere_eq]
  refine .bind ((makeFresh_keeps _).elsewhere fun _ h => .inr (.inr (.inr (.inl h)))) fun _ => ?_
  cases h : o.buildDir with
  | some _ => exact make_keeps hc text dest o
  | none => exact tidy_keeps (fun route hroute => .inr (scratch_beside h route hroute)) (make_keeps hc text dest o)

theorem makeSomewhere_fails (hc : c.Makes product) (text : String) (dest : Location) (hkeep : o.keep ≠ .all) :
    (leaving (Beside dest o)).Fails (c.makeSomewhere (stemOf dest) text dest o) := by
  rw [makeSomewhere_eq]
  refine .bind ((makeFresh_keeps _).elsewhere fun _ h => .inr (.inr (.inl h))) fun _ => ?_
  cases h : o.buildDir with
  | some _ => exact make_fails hc text dest hkeep
  | none => exact tidy_fails (scratch_beside h) (make_fails hc text dest hkeep)

theorem makeSomewhere_ok (hc : c.Makes product) (hdest : ¬ Beside dest o dest.route) (hw : w.files.Named)
    (h : effect (c.makeSomewhere (stemOf dest) text dest o) w = (.ok (), w')) :
    w'.files.fileAt? dest.route = some (product text) := by
  rw [makeSomewhere_eq] at h
  obtain ⟨_, w₁, hfresh, h⟩ := effect_bind_eq_ok.mp h
  have hw₁ := ((makeFresh_keeps _).of_ok hfresh hw).1.named hw
  cases hdir : o.buildDir with
  | some _ =>
    rw [hdir] at h
    exact make_ok hc hdest hw₁ h
  | none =>
    rw [hdir] at h
    dsimp only at h
    rw [effect_finally] at h
    rcases hmake : effect (c.make (workIn dest o) (stemOf dest) text dest o) w₁ with ⟨_ | _, w₂⟩
    · rw [hmake] at h
      cases h
    · rw [hmake] at h
      cases h
      exact ((tidy_leaves w₂).same _ fun hscratch => hdest (scratch_beside hdir _ hscratch)).trans
        (make_ok hc hdest hw₁ hmake)

end Compiler

end Bitpress

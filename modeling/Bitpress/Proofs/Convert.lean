import Bitpress.Proofs.Compiler.Files
import Bitpress.Report

/-!
What a conversion does to files.

A conversion plans first and writes afterwards (`Surroundings.convert_eq`). All that
can fail while it reads, parses and prints belongs to the plan, so then nothing has
changed (`Surroundings.convert_unplanned`). What is written is the destination and no
other file (`Surroundings.convert_leaves`). A destination that is spelled like the
source is refused; so the source is lost only where it is written to under another
spelling (`Surroundings.convert_spares_source`), and then it is
(`Surroundings.convert_overwrites`).
-/

namespace Bitpress

open Outcome

/-! ### Tasks -/

namespace Task

variable {α β : Type} {p q : Progress}

/-- What a task gives, and what has been done then. -/
def perform (x : Task α) (p : Progress) : Except Failure α × Progress := StateT.run (ExceptT.run x) p

theorem perform_get : perform (getThe Progress : Task Progress) p = (.ok p, p) := rfl

theorem perform_bind (x : Task α) (f : α → Task β) :
    perform (x >>= f) p = match perform x p with
      | (.ok a, q) => perform (f a) q
      | (.error e, q) => (.error e, q) := by
  unfold perform ExceptT.run StateT.run
  simp only [bind, ExceptT.bind, ExceptT.mk, StateT.bind]
  rcases x p with ⟨r, q⟩
  cases r <;> rfl

/-- A task that does what was planned, if the plan could be made. -/
def follow (plan : Except Failure α) (act : α → Task β) : Task β :=
  match plan with
  | .ok a => act a
  | .error f => throw f

/-- What is tried first belongs to the plan. -/
theorem perform_ofOutcome_bind {γ : Type} {r : Outcome α} {f : α → Task β} {plan : α → Except Failure γ}
    {act : γ → Task β} (h : ∀ a, perform (f a) p = perform (follow (plan a) act) p) :
    perform (ofOutcome r >>= f) p = perform (follow (r.mapError .error >>= plan) act) p := by
  cases r with
  | error e => rfl
  | ok a => exact h a

theorem perform_onFiles (change : FileTree → Except FileFault FileTree) :
    perform (onFiles change) p = match change p.files with
      | .ok files => (.ok (), { p with files })
      | .error fault => (.error (.error (.file fault)), p) := by
  unfold onFiles
  rw [perform_bind, perform_get]
  dsimp only
  cases change p.files <;> rfl

end Task

/-! ### Conversions -/

namespace Surroundings

variable {s : Surroundings} {source dest : Location} {out : Option Location} {extension : Option String} {p : Progress}
  {text : String} {f : Failure}

/-- Where a conversion writes to, if it is told. -/
def destOf (source : Location) (out : Option Location) (extension : Option String) : Option Location :=
  out <|> extension.map source.withExtension

/-- What a conversion is to write, and where. -/
def plan (s : Surroundings) (source : Location) (out : Option Location) (extension : Option String) (files : FileTree) :
    Except Failure (Location × String) := do
  let some dest := destOf source out extension
    | throw (.pointless "pass either \u0060--out <file>\u0060 or \u0060--fmt <format>\u0060")
  if dest.same source then
    throw (.pointless ("refusing to overwrite \u0060" ++ source.text ++ "\u0060 with itself"))
  let d ← (({ files } : Library).document (s.locate source)).mapError .error
  let format ← (DocumentFormat.ofLocation dest).mapError .error
  let text ← (Document.print format d).mapError .error
  return (dest, text)

/-- Writes what was planned. -/
def writeOut (s : Surroundings) (dest : Location) (text : String) : Task Unit := do
  Task.onFiles fun t => t.makeParent (s.locate dest)
  Task.onFiles fun t => t.write (s.locate dest) (.text text)
  Task.print ("Wrote " ++ dest.text)

theorem perform_outputOf : (outputOf source out extension).perform p =
    match destOf source out extension with
    | some dest => (.ok dest, p)
    | none => (.error (.pointless "pass either \u0060--out <file>\u0060 or \u0060--fmt <format>\u0060"), p) := by
  cases out <;> cases extension <;> rfl

/-- A conversion plans first and writes afterwards. -/
theorem convert_eq (s : Surroundings) (source : Location) (out : Option Location) (extension : Option String)
    (p : Progress) : (s.convert source out extension).perform p =
      (Task.follow (s.plan source out extension p.files) fun e => s.writeOut e.1 e.2).perform p := by
  unfold convert plan
  rw [Task.perform_bind, perform_outputOf]
  cases destOf source out extension with
  | none => rfl
  | some dest =>
    dsimp only
    by_cases hsame : dest.same source = true
    · rw [if_pos hsame, if_pos hsame]
      rfl
    · rw [if_neg hsame, if_neg hsame, Task.perform_bind, Task.perform_get]
      exact Task.perform_ofOutcome_bind fun d => Task.perform_ofOutcome_bind fun format =>
        Task.perform_ofOutcome_bind fun text => rfl

/-! ### What is planned -/

theorem plan_eq_ok (h : s.plan source out extension p.files = .ok (dest, text)) :
    destOf source out extension = some dest ∧ dest.same source = false ∧
      ∃ d format, ({ files := p.files } : Library).document (s.locate source) = .ok d ∧
        DocumentFormat.ofLocation dest = .ok format ∧ Document.print format d = .ok text := by
  unfold plan at h
  cases hdest : destOf source out extension with
  | none =>
    rw [hdest] at h
    cases h
  | some found =>
    rw [hdest] at h
    dsimp only at h
    by_cases hsame : found.same source = true
    · rw [if_pos hsame] at h
      cases h
    · rw [if_neg hsame] at h
      obtain ⟨d, hd, h⟩ := bind_eq_ok.mp h
      obtain ⟨format, hformat, h⟩ := bind_eq_ok.mp h
      obtain ⟨printed, hprinted, h⟩ := bind_eq_ok.mp h
      cases h
      exact ⟨rfl, Bool.eq_false_iff.mpr hsame, d, format, mapError_eq_ok.mp hd, mapError_eq_ok.mp hformat,
        mapError_eq_ok.mp hprinted⟩

/-- A conversion that cannot be planned leaves everything as it is. -/
theorem convert_unplanned (h : s.plan source out extension p.files = .error f) :
    (s.convert source out extension).perform p = (.error f, p) := by
  rw [convert_eq, h]
  rfl

/-- Nothing is converted onto a location that is spelled like the source. -/
theorem convert_refused (hdest : destOf source out extension = some dest) (hsame : dest.same source = true) :
    (s.convert source out extension).perform p =
      (.error (.pointless ("refusing to overwrite \u0060" ++ source.text ++ "\u0060 with itself")), p) := by
  refine convert_unplanned ?_
  unfold plan
  rw [hdest]
  dsimp only
  rw [if_pos hsame]
  rfl

/-- What cannot be read as a registry is not converted. -/
theorem convert_unreadable {e : Error} (hdest : destOf source out extension = some dest) (hsame : dest.same source = false)
    (h : ({ files := p.files } : Library).document (s.locate source) = .error e) :
    (s.convert source out extension).perform p = (.error (.error e), p) := by
  refine convert_unplanned ?_
  unfold plan
  rw [hdest]
  dsimp only
  rw [if_neg (by rw [hsame]; exact Bool.false_ne_true), h]
  rfl

/-! ### What is written -/

theorem writeOut_eq (dest : Location) (text : String) (p : Progress) : (s.writeOut dest text).perform p =
    match p.files.makeParent (s.locate dest) with
    | .error fault => (.error (.error (.file fault)), p)
    | .ok made =>
      match made.write (s.locate dest) (.text text) with
      | .error fault => (.error (.error (.file fault)), { p with files := made })
      | .ok files => (.ok (), { p with files, output := p.output ++ ["Wrote " ++ dest.text] }) := by
  unfold writeOut
  rw [Task.perform_bind, Task.perform_onFiles]
  cases p.files.makeParent (s.locate dest) with
  | error fault => rfl
  | ok made =>
    dsimp only
    rw [Task.perform_bind, Task.perform_onFiles]
    dsimp only
    cases made.write (s.locate dest) (.text text) <;> rfl

/-- Writing changes no file but the destination, which then holds the text. -/
theorem writeOut_leaves {r : Except Failure Unit} {q : Progress} (h : (s.writeOut dest text).perform p = (r, q)) :
    FileTree.Leaves (· = (s.locate dest).route) p.files q.files ∧
      (r = .ok () → q.files.fileAt? (s.locate dest).route = some (.text text)) := by
  rw [writeOut_eq] at h
  cases hmade : p.files.makeParent (s.locate dest) with
  | error fault =>
    rw [hmade] at h
    cases h
    exact ⟨.refl _ _, nofun⟩
  | ok made =>
    have hmakes : FileTree.Leaves (· = (s.locate dest).route) p.files made :=
      (FileTree.makeParent_leaves hmade).mono fun _ => False.elim
    rw [hmade] at h
    dsimp only at h
    cases hwritten : made.write (s.locate dest) (.text text) with
    | error fault =>
      rw [hwritten] at h
      cases h
      exact ⟨hmakes, nofun⟩
    | ok files =>
      rw [hwritten] at h
      cases h
      obtain ⟨hholds, hleaves⟩ := FileTree.write_eq_ok hwritten
      exact ⟨hmakes.trans hleaves, fun _ => hholds⟩

variable {r : Except Failure Unit} {q : Progress}

/-- A conversion changes one file at most, the one that it writes to. -/
theorem convert_leaves (h : (s.convert source out extension).perform p = (r, q)) :
    FileTree.Leaves (fun route => ∃ dest, destOf source out extension = some dest ∧ dest.same source = false ∧
      route = (s.locate dest).route) p.files q.files := by
  cases hplan : s.plan source out extension p.files with
  | error f =>
    rw [convert_unplanned hplan] at h
    cases h
    exact .refl _ _
  | ok e =>
    obtain ⟨dest, text⟩ := e
    obtain ⟨hdest, hsame, -⟩ := plan_eq_ok hplan
    rw [convert_eq, hplan] at h
    exact (writeOut_leaves h).1.mono fun route hroute => ⟨dest, hdest, hsame, hroute⟩

/-- What was converted stands at the destination, as it was read from the source. -/
theorem convert_eq_ok (h : (s.convert source out extension).perform p = (.ok (), q)) :
    ∃ dest d format text, destOf source out extension = some dest ∧ DocumentFormat.ofLocation dest = .ok format ∧
      ({ files := p.files } : Library).document (s.locate source) = .ok d ∧ Document.print format d = .ok text ∧
      q.files.fileAt? (s.locate dest).route = some (.text text) := by
  cases hplan : s.plan source out extension p.files with
  | error f =>
    rw [convert_unplanned hplan] at h
    cases h
  | ok e =>
    obtain ⟨dest, text⟩ := e
    obtain ⟨hdest, -, d, format, hd, hformat, htext⟩ := plan_eq_ok hplan
    rw [convert_eq, hplan] at h
    exact ⟨dest, d, format, text, hdest, hformat, hd, htext, (writeOut_leaves h).2 rfl⟩

/-! ### The source -/

/-- With another extension, a location leads to the same file only where it is spelled the same. -/
theorem same_withExtension {e : String} (hne : e ≠ "") (hwhole : '/' ∉ e.toList)
    (hroute : (s.locate (source.withExtension e)).route = (s.locate source).route) :
    (source.withExtension e).same source = true := by
  refine beq_iff_eq.mpr ?_
  cases hname : source.fileName? with
  | none =>
    unfold Location.withExtension
    rw [hname]
    rfl
  | some name =>
    obtain ⟨init, hparts, hparts'⟩ := Location.parts_withExtension hname hne hwhole
    have hname' := Location.fileName?_eq_some.mpr (hparts' ▸ List.getLast?_concat)
    obtain ⟨before, hbefore⟩ := Location.route_of_fileName? (Location.fileName?_join (p := s.directory) hname)
    obtain ⟨before', hbefore'⟩ := Location.route_of_fileName? (Location.fileName?_join (p := s.directory) hname')
    have hends : [(Location.splitName name).1 ++ "." ++ e] = [name] :=
      List.append_inj_right' (hbefore'.symm.trans (hroute.trans hbefore)) rfl
    rw [hparts', hparts, List.singleton_inj.mp hends]

/-- The source is lost only where the conversion is told to write to it under another spelling. -/
theorem convert_spares_source (hextension : ∀ e ∈ extension, e ≠ "" ∧ '/' ∉ e.toList)
    (h : (s.convert source out extension).perform p = (r, q))
    (hlost : q.files.fileAt? (s.locate source).route ≠ p.files.fileAt? (s.locate source).route) :
    ∃ dest, out = some dest ∧ dest.same source = false ∧ (s.locate dest).route = (s.locate source).route := by
  obtain ⟨dest, hdest, hsame, hroute⟩ := Classical.not_not.mp (mt ((convert_leaves h).same _) hlost)
  cases out with
  | some found =>
    cases hdest
    exact ⟨_, rfl, hsame, hroute.symm⟩
  | none =>
    obtain ⟨e, he, rfl⟩ := Option.map_eq_some_iff.mp (show extension.map source.withExtension = some dest from hdest)
    obtain ⟨hne, hwhole⟩ := hextension e he
    rw [same_withExtension hne hwhole hroute.symm] at hsame
    cases hsame

/-- There the source then holds what was made of it. -/
theorem convert_overwrites (h : (s.convert source out extension).perform p = (.ok (), q))
    (hdest : destOf source out extension = some dest) (hroute : (s.locate dest).route = (s.locate source).route) :
    ∃ d format text, ({ files := p.files } : Library).document (s.locate source) = .ok d ∧
      Document.print format d = .ok text ∧ q.files.fileAt? (s.locate source).route = some (.text text) := by
  obtain ⟨dest', d, format, text, hdest', -, hd, htext, hholds⟩ := convert_eq_ok h
  cases hdest.symm.trans hdest'
  exact ⟨d, format, text, hd, htext, hroute ▸ hholds⟩

example : Location.same ⟨"./a.yml"⟩ ⟨"a.yml"⟩ = false ∧
    (Location.join ⟨"/work"⟩ ⟨"./a.yml"⟩).route = (Location.join ⟨"/work"⟩ ⟨"a.yml"⟩).route := by decide

end Surroundings

end Bitpress

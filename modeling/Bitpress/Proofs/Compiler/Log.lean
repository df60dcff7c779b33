import Bitpress.Compiler
import Bitpress.Proofs.Lines
import Mathlib.Data.List.DropRight
import Mathlib.Data.List.Infix

/-!
What is found in a log.

A log has reports of three kinds (`kinds`). They stand behind words of their own and
go on to the end of the line (`mem_reports_following`, `mem_reports_package`). Of
each kind only the first report is looked at, and the first kind counts for which it
says something (`error?_eq`). So what is found stands in the log behind an
exclamation mark and a blank (`speaks_of_error?`), and it is the best that the log
has to say as long as no kind hides what it says behind a blank report
(`error?_eq_best?`).
-/

namespace Bitpress

theorem Text.trimChars_eq_nil_iff {cs : List Char} : trimChars cs = [] ↔ ∀ c ∈ cs, isBlank c := by
  show (cs.dropWhile isBlank).rdropWhile isBlank = [] ↔ _
  rw [List.rdropWhile_eq_nil_iff, ← List.dropWhile_eq_nil_iff, List.dropWhile_idempotent, List.dropWhile_eq_nil_iff]

namespace CompilerLog

/-! ### Reports -/

/-- What a report says that begins at the front of a text, if one does. -/
abbrev Kind := List Char → Option (List Char)

namespace Kind

/-- The reports that begin with a word and say the rest of the line. -/
def following (word : String) : Kind := fun cs => (Text.after? word.toList cs).map restOfLine

def language : Kind := following "! LaTeX Error: "

def package : Kind := fun cs =>
  (Text.after? "! Package ".toList cs).bind fun rest => afterLast? " Error: ".toList (restOfLine rest)

def any : Kind := following "! "

/-- The messages of the reports in a log, in their order. -/
def reports (kind : Kind) (log : String) : List (List Char) := log.toList.tails.filterMap kind

/-- What the first report says. -/
def first? (kind : Kind) (log : String) : Option String := (kind.reports log).head?.bind spoken?

/-- What the first of the reports says that say anything. -/
def said? (kind : Kind) (log : String) : Option String := (kind.reports log).findSome? spoken?

end Kind

/-- The kinds of reports; those that say more stand in front. -/
def kinds : List Kind := [.language, .package, .any]

/-- The report that says most, of all that say anything. -/
def best? (log : String) : Option String := kinds.findSome? fun kind => kind.said? log

/-- Something stands on a line behind an exclamation mark and a blank. -/
def Speaks (log : String) : Prop :=
  ∃ before rest, log.toList = before ++ "! ".toList ++ rest ∧ ∃ c ∈ restOfLine rest, Text.isBlank c = false

variable {log : String} {kind : Kind} {word cs rest start message : List Char}

theorem spoken?_eq_none_iff : spoken? message = none ↔ ∀ c ∈ message, Text.isBlank c := by
  unfold spoken?
  rw [← Text.trimChars_eq_nil_iff]
  dsimp only
  split <;> simp_all

theorem spoken?_isSome_iff : (spoken? message).isSome ↔ ∃ c ∈ message, Text.isBlank c = false := by
  rw [Option.isSome_iff_ne_none, Ne, spoken?_eq_none_iff]
  simp

/-! ### Where reports stand -/

theorem mem_reports : message ∈ kind.reports log ↔
    ∃ before rest, log.toList = before ++ rest ∧ kind rest = some message := by
  unfold Kind.reports
  simp only [List.mem_filterMap, List.mem_tails]
  constructor
  · rintro ⟨rest, ⟨before, hlog⟩, hmessage⟩
    exact ⟨before, rest, hlog.symm, hmessage⟩
  · rintro ⟨before, rest, hlog, hmessage⟩
    exact ⟨rest, ⟨before, hlog.symm⟩, hmessage⟩

theorem mem_reports_following {word : String} : message ∈ (Kind.following word).reports log ↔
    ∃ before rest, log.toList = before ++ word.toList ++ rest ∧ restOfLine rest = message := by
  simp only [mem_reports, Kind.following, Option.map_eq_some_iff, Text.after?_eq_some_iff]
  constructor
  · rintro ⟨before, _, hlog, rest, rfl, hmessage⟩
    exact ⟨before, rest, by rw [hlog, List.append_assoc], hmessage⟩
  · rintro ⟨before, rest, hlog, hmessage⟩
    exact ⟨before, _, by rw [hlog, List.append_assoc], rest, rfl, hmessage⟩

theorem restOfLine_append (hstart : '\n' ∉ start ∧ '\r' ∉ start) (rest : List Char) :
    restOfLine (start ++ rest) = start ++ restOfLine rest := by
  refine List.takeWhile_append_of_pos fun c hc => ?_
  have hne : c ≠ '\n' ∧ c ≠ '\r' := ⟨ne_of_mem_of_not_mem hc hstart.1, ne_of_mem_of_not_mem hc hstart.2⟩
  simpa using hne

theorem restOfLine_eq_append_iff : restOfLine cs = start ++ message ↔
    ('\n' ∉ start ∧ '\r' ∉ start) ∧ ∃ rest, cs = start ++ rest ∧ restOfLine rest = message := by
  constructor
  · intro h
    have hwithin : ∀ c ∈ start, c ≠ '\n' ∧ c ≠ '\r' := fun c hc => by
      have hc : c ∈ restOfLine cs := h ▸ List.mem_append_left message hc
      simpa using List.mem_takeWhile_imp hc
    have hstart : '\n' ∉ start ∧ '\r' ∉ start := ⟨fun hc => (hwithin _ hc).1 rfl, fun hc => (hwithin _ hc).2 rfl⟩
    obtain ⟨rest, hcs⟩ : start <+: cs := (List.prefix_append start message).trans (h ▸ List.takeWhile_prefix _)
    rw [← hcs, restOfLine_append hstart, List.append_cancel_left_eq] at h
    exact ⟨hstart, rest, hcs.symm, h⟩
  · rintro ⟨hstart, rest, rfl, rfl⟩
    exact restOfLine_append hstart rest

theorem afterLast?_eq_none_iff : afterLast? word cs = none ↔ ¬ word <:+: cs := by
  induction cs with
  | nil => rw [afterLast?, Text.after?_eq_none_iff, List.infix_nil, List.prefix_nil]
  | cons c rest ih =>
    rw [List.infix_cons_iff, not_or, ← ih, ← Text.after?_eq_none_iff, afterLast?]
    cases afterLast? word rest <;> simp

/-- Behind the last word there is no other, not even one that begins within it. -/
theorem afterLast?_eq_some_iff (hword : word ≠ []) : afterLast? word cs = some rest ↔
    ∃ before, cs = before ++ (word ++ rest) ∧ ¬ word <:+: (word ++ rest).tail := by
  induction cs with
  | nil =>
    rw [afterLast?, Text.after?_eq_some_iff]
    simp [hword]
  | cons c more ih =>
    rw [afterLast?]
    cases hmore : afterLast? word more with
    | some last =>
      rw [hmore] at ih
      dsimp only
      rw [ih]
      constructor
      · rintro ⟨before, rfl, hlast⟩
        exact ⟨c :: before, rfl, hlast⟩
      · rintro ⟨before, hcs, hlast⟩
        cases before with
        | nil =>
          rw [List.nil_append] at hcs
          rw [← hcs, List.tail_cons, ← afterLast?_eq_none_iff, hmore] at hlast
          cases hlast
        | cons _ before =>
          cases hcs
          exact ⟨before, rfl, hlast⟩
    | none =>
      have hnone := afterLast?_eq_none_iff.mp hmore
      dsimp only
      rw [Text.after?_eq_some_iff]
      constructor
      · intro hcs
        exact ⟨[], hcs, hcs ▸ hnone⟩
      · rintro ⟨before, hcs, -⟩
        cases before with
        | nil => exact hcs
        | cons _ before =>
          cases hcs
          exact absurd ⟨before, rest, List.append_assoc ..⟩ hnone

/-- A report of a package names it on the line, and says what stands behind the last word for an error there. -/
theorem mem_reports_package : message ∈ Kind.package.reports log ↔
    ∃ before name rest, log.toList = before ++ "! ".toList ++ ("Package ".toList ++ name ++ " Error: ".toList ++ rest) ∧
      ('\n' ∉ name ∧ '\r' ∉ name) ∧ restOfLine rest = message ∧
      ¬ " Error: ".toList <:+: "Error: ".toList ++ message := by
  have hword : " Error: ".toList ≠ [] := by decide
  have hline : ∀ {name : List Char}, ('\n' ∉ name ++ " Error: ".toList ∧ '\r' ∉ name ++ " Error: ".toList) ↔
      '\n' ∉ name ∧ '\r' ∉ name := by simp
  simp only [mem_reports, Kind.package, Option.bind_eq_some_iff, Text.after?_eq_some_iff, afterLast?_eq_some_iff hword,
    ← List.append_assoc, restOfLine_eq_append_iff, hline]
  constructor
  · rintro ⟨before, _, hlog, _, rfl, name, ⟨hname, rest, rfl, hmessage⟩, hlast⟩
    exact ⟨before, name, rest, by simpa using hlog, hname, hmessage, hlast⟩
  · rintro ⟨before, name, rest, hlog, hname, hmessage, hlast⟩
    exact ⟨before, _, by simpa using hlog, _, rfl, name, ⟨hname, rest, rfl, hmessage⟩, hlast⟩

/-! ### What a log says -/

theorem exists_not_isBlank (hstart : '\n' ∉ start ∧ '\r' ∉ start) {c : Char} (hc : c ∈ start)
    (hblank : Text.isBlank c = false) (rest : List Char) :
    ∃ c ∈ restOfLine (start ++ rest), Text.isBlank c = false := by
  rw [restOfLine_append hstart]
  exact ⟨c, List.mem_append_left _ hc, hblank⟩

/-- A report has words of its own behind the exclamation mark, or says what stands there. -/
theorem speaks_of_said? (hkind : kind ∈ kinds) (h : (kind.said? log).isSome) : Speaks log := by
  obtain ⟨message, hmessage, hspoken⟩ := List.findSome?_isSome_iff.mp h
  simp only [kinds, List.mem_cons, List.not_mem_nil, or_false] at hkind
  rcases hkind with rfl | rfl | rfl
  · obtain ⟨before, rest, hlog, -⟩ := mem_reports_following.mp hmessage
    refine ⟨before, "LaTeX Error: ".toList ++ rest, by simpa using hlog, ?_⟩
    exact exists_not_isBlank (c := 'L') (by decide) (by decide) (by decide) rest
  · obtain ⟨before, name, rest, hlog, -⟩ := mem_reports_package.mp hmessage
    refine ⟨before, "Package ".toList ++ (name ++ " Error: ".toList ++ rest), by simpa using hlog, ?_⟩
    exact exists_not_isBlank (c := 'P') (by decide) (by decide) (by decide) _
  · obtain ⟨before, rest, hlog, rfl⟩ := mem_reports_following.mp hmessage
    exact ⟨before, rest, hlog, spoken?_isSome_iff.mp hspoken⟩

theorem best?_isSome_iff : (best? log).isSome ↔ Speaks log := by
  constructor
  · intro h
    obtain ⟨kind, hkind, hsaid⟩ := List.findSome?_isSome_iff.mp h
    exact speaks_of_said? hkind hsaid
  · rintro ⟨before, rest, hlog, hspeaks⟩
    refine List.findSome?_isSome_iff.mpr ⟨.any, by simp [kinds], List.findSome?_isSome_iff.mpr ?_⟩
    exact ⟨_, mem_reports_following.mpr ⟨before, rest, hlog, rfl⟩, spoken?_isSome_iff.mpr hspeaks⟩

/-! ### What is found -/

theorem lineAfter?_eq (word log : String) :
    lineAfter? word log.toList = ((Kind.following word).reports log).head? := by
  unfold Kind.reports Kind.following
  rw [List.head?_filterMap]
  calc lineAfter? word log.toList
      = ((Text.cutAt? word.toList log.toList).map Prod.snd).map restOfLine := (Option.map_map ..).symm
    _ = (log.toList.tails.findSome? (Text.after? word.toList)).map restOfLine := by rw [Text.map_snd_cutAt?]
    _ = log.toList.tails.findSome? fun cs => (Text.after? word.toList cs).map restOfLine := List.map_findSome? ..

theorem packageError?_eq (log : String) : packageError? log.toList = (Kind.package.reports log).head? := by
  unfold Kind.reports
  rw [List.head?_filterMap]
  induction log.toList with
  | nil => rfl
  | cons c rest ih =>
    rw [List.tails, List.findSome?_cons, packageError?, ih]
    split
    · rename_i message hmessage
      have hkind : Kind.package (c :: rest) = some message := hmessage
      rw [hkind]
    · rename_i hnone
      have hkind : Kind.package (c :: rest) = none := hnone
      rw [hkind]

/-- Of each kind the first report is looked at, and the first kind counts for which it says something. -/
theorem error?_eq (log : String) : error? log = kinds.findSome? fun kind => kind.first? log := by
  unfold error? kinds Kind.first?
  simp only [List.findSome?_cons, List.findSome?_nil, languageError?, anyError?, lineAfter?_eq, packageError?_eq]
  rfl

theorem said?_of_first? {said : String} (h : kind.first? log = some said) : kind.said? log = some said := by
  obtain ⟨message, hfirst, hsaid⟩ := Option.bind_eq_some_iff.mp h
  obtain ⟨more, hreports⟩ := List.head?_eq_some_iff.mp hfirst
  unfold Kind.said?
  rw [hreports, List.findSome?_cons, hsaid]

/-- **What is found stands in the log.** -/
theorem speaks_of_error? {said : String} (h : error? log = some said) : Speaks log := by
  rw [error?_eq] at h
  obtain ⟨kind, hkind, hfirst⟩ := List.exists_of_findSome?_eq_some h
  exact speaks_of_said? hkind (by rw [said?_of_first? hfirst]; rfl)

/-- Nothing is found exactly if the first report of every kind is blank or missing. -/
theorem error?_eq_none_iff : error? log = none ↔
    ∀ kind ∈ kinds, ∀ message ∈ (kind.reports log).head?, ∀ c ∈ message, Text.isBlank c := by
  rw [error?_eq, List.findSome?_eq_none_iff]
  simp only [Kind.first?, Option.bind_eq_none_iff, spoken?_eq_none_iff, Option.mem_def]

/-- **The best report is found if every kind that says something says it in its first report.** -/
theorem error?_eq_best? (h : ∀ kind ∈ kinds, kind.first? log = none → kind.said? log = none) :
    error? log = best? log := by
  have hsame : ∀ kind ∈ kinds, kind.first? log = kind.said? log := fun kind hkind => by
    cases hfirst : kind.first? log with
    | none => exact (h kind hkind hfirst).symm
    | some said => exact (said?_of_first? hfirst).symm
  rw [error?_eq, best?, ← List.head?_filterMap, ← List.head?_filterMap, List.filterMap_congr hsame]

/-- A blank report hides what stands behind it. -/
example : error? "! \n! Undefined control sequence.\n" = none ∧
    best? "! \n! Undefined control sequence.\n" = some "Undefined control sequence." := by
  cbv

end CompilerLog

end Bitpress

import Bitpress.Proofs.Compose.Kept

/-!
What the sources of an aggregate stand for.

What an entry makes is found under the name of its variable and under its own name,
and what was made latest under a name wins (`Progress.valueAt?_composed_after`). So
a source that is a variable is read as this variable, as long as no entry with that
name has made another one since (`source_reads_variable`). In a whole run that is so
if the entry with the name of the source does not rename its variable
(`source_reads_variable_of_run`).
-/

namespace Bitpress

namespace Compose

variable {results : Table QueryResult} {specs before : Table ComposeSpec} {name source : String} {spec : ComposeSpec}
  {p : Progress} {s t : Session}

/-- What an entry has made. -/
structure Made where
  name : String
  spec : ComposeSpec
  composed : Composed

namespace Made

def outName (m : Made) : String := m.spec.outName.getD m.name

def entry (m : Made) : String × ComposeSpec := (m.name, m.spec)

end Made

variable {m : Made} {history later earlier : List Made}

/-- What some entries have made, the latest first. -/
def Progress.after : List Made → Progress
  | [] => {}
  | m :: earlier => (after earlier).add m.name m.spec m.composed

/-! ### What a name stands for -/

theorem Progress.valueAt?_output_add (p : Progress) (name : String) (spec : ComposeSpec) (made : Composed) (key : String) :
    (p.add name spec made).output.valueAt? key =
      if spec.outName.getD name = key then some made.toValue else p.output.valueAt? key := by
  rw [add, Table.valueAt?_put]
  grind

theorem Progress.valueAt?_composed_add (p : Progress) (name : String) (spec : ComposeSpec) (made : Composed)
    (key : String) : (p.add name spec made).composed.valueAt? key =
      if name = key ∨ spec.outName.getD name = key then some made else p.composed.valueAt? key := by
  unfold add
  dsimp only
  rw [Table.valueAt?_put, apply_ite (Table.valueAt? · key), Table.valueAt?_put]
  grind

/-- What each entry overwrites under a test is in the end what the latest one with the test has made. -/
theorem eq_find?_of_add {β : Type} {f : List Made → Option β} {test : Made → Prop} [DecidablePred test] {g : Made → β}
    (hnil : f [] = none) (hadd : ∀ m earlier, f (m :: earlier) = if test m then some (g m) else f earlier)
    (history : List Made) : f history = (history.find? fun m => test m).map g := by
  induction history with
  | nil => exact hnil
  | cons m earlier ih =>
    rw [hadd, List.find?_cons]
    by_cases h : test m
    · rw [if_pos h, decide_eq_true h]
      rfl
    · rw [if_neg h, decide_eq_false h]
      exact ih

/-- A variable has what was made latest for it. -/
theorem Progress.valueAt?_output_after (history : List Made) (key : String) :
    (after history).output.valueAt? key = (history.find? fun m => m.outName = key).map (·.composed.toValue) :=
  eq_find?_of_add (f := fun history => (after history).output.valueAt? key) rfl
    (fun m earlier => valueAt?_output_add (after earlier) m.name m.spec m.composed key) history

/-- A name stands for what was made latest under it, be it the name of an entry or of a variable. -/
theorem Progress.valueAt?_composed_after (history : List Made) (key : String) :
    (after history).composed.valueAt? key =
      (history.find? fun m => m.name = key ∨ m.outName = key).map (·.composed) :=
  eq_find?_of_add (f := fun history => (after history).composed.valueAt? key) rfl
    (fun m earlier => valueAt?_composed_add (after earlier) m.name m.spec m.composed key) history

/-- A source is read as what was made latest under its name, for whatever variable. -/
theorem source_reads_latest (hm : m.name = source ∨ m.outName = source)
    (hlater : ∀ l ∈ later, l.name ≠ source ∧ l.outName ≠ source) :
    sourceGroups? (.after (later ++ m :: earlier)) results source = some m.composed.groups := by
  have hfind : (later ++ m :: earlier).find? (fun m => m.name = source ∨ m.outName = source) = some m :=
    List.find?_eq_some_iff_append.mpr ⟨decide_eq_true hm, later, earlier, rfl, fun l hl => by
      rw [decide_eq_false (not_or.mpr (hlater l hl)), Bool.not_false]⟩
  unfold sourceGroups?
  rw [Progress.valueAt?_composed_after, hfind]
  rfl

/-- A source that is a variable is read as this variable, unless an entry with its name has made another one
since. -/
theorem source_reads_variable {v : ContextValue} (hv : (Progress.after history).output.valueAt? source = some v) :
    ∃ later m earlier, history = later ++ m :: earlier ∧ m.composed.toValue = v ∧ (∀ l ∈ later, l.outName ≠ source) ∧
      ((∀ l ∈ later, l.name ≠ source) → sourceGroups? (.after history) results source = some m.composed.groups) := by
  rw [Progress.valueAt?_output_after] at hv
  obtain ⟨m, hfind, hvalue⟩ := Option.map_eq_some_iff.mp hv
  obtain ⟨hout, later, earlier, rfl, hsince⟩ := List.find?_eq_some_iff_append.mp hfind
  have hothers : ∀ l ∈ later, l.outName ≠ source := by
    intro l hl h
    have hother := hsince l hl
    rw [decide_eq_true h] at hother
    cases hother
  exact ⟨later, m, earlier, rfl, hvalue, hothers, fun hnames =>
    source_reads_latest (.inr (of_decide_eq_true hout)) fun l hl => ⟨hnames l hl, hothers l hl⟩⟩

/-! ### A run -/

/-- What has been made when the first of the entries with sources have run. -/
def upTo (results : Table QueryResult) (specs before : Table ComposeSpec) : Press Progress :=
  singly specs results {} >>= jointly results before

/-- An aggregate reads its sources from what has been made before it. -/
theorem run_at {sources : List String} (hspec : spec.sources = some sources) (results : Table QueryResult)
    (before rest : Table ComposeSpec) :
    run results (before ++ (name, spec) :: rest) = (do
      let p ← upTo results (before ++ (name, spec) :: rest) before
      let made ← addAggregate results p name spec sources
      return (← jointly results rest made).output) := by
  have hjointly : ∀ p, jointly results (before ++ (name, spec) :: rest) p =
      jointly results before p >>= fun p => addAggregate results p name spec sources >>= jointly results rest := by
    intro p
    unfold jointly
    rw [List.foldlM_append]
    refine bind_congr fun p => ?_
    rw [List.foldlM_cons]
    dsimp only
    rw [hspec]
  rw [run_eq, upTo, bind_assoc]
  refine bind_congr fun p => ?_
  rw [hjointly, bind_assoc]
  exact bind_congr fun p => bind_assoc ..

theorem exists_made_of_addEntry {groups : List (List ContextValue)} {grouped : Bool}
    (h : effect (addEntry (.after history) name groups grouped spec) s = (.ok p, t)) :
    ∃ m : Made, m.entry = (name, spec) ∧ p = .after (m :: history) := by
  obtain ⟨made, rfl⟩ := exists_add_of_addEntry h
  exact ⟨⟨name, spec, made⟩, rfl, rfl⟩

/-- Each result is made in its order, by its own entry. -/
theorem exists_history_of_singly (h : effect (singly specs results (.after history)) s = (.ok p, t)) :
    ∃ made, p = .after (made ++ history) ∧
      made.reverse.map Made.entry = results.map fun e => (e.1, entryFor specs e.1) := by
  induction results generalizing history s with
  | nil =>
    cases h
    exact ⟨[], rfl, rfl⟩
  | cons e rest ih =>
    unfold singly at h
    rw [List.foldlM_cons] at h
    obtain ⟨_, _, hfirst, h⟩ := effect_bind_eq_ok.mp h
    obtain ⟨m, hm, rfl⟩ := exists_made_of_addEntry hfirst
    obtain ⟨made, rfl, hmade⟩ := ih h
    refine ⟨made ++ [m], by rw [List.append_assoc]; rfl, ?_⟩
    rw [List.reverse_append, List.map_append, hmade]
    exact congrArg (· :: _) hm

/-- Of the entries of the map, those with sources are made in their order. -/
theorem exists_history_of_jointly (h : effect (jointly results before (.after history)) s = (.ok p, t)) :
    ∃ made, p = .after (made ++ history) ∧
      made.reverse.map Made.entry = before.filter fun e => e.2.sources.isSome := by
  induction before generalizing history s with
  | nil =>
    cases h
    exact ⟨[], rfl, rfl⟩
  | cons e rest ih =>
    unfold jointly at h
    rw [List.foldlM_cons] at h
    obtain ⟨_, _, hfirst, h⟩ := effect_bind_eq_ok.mp h
    cases hsources : e.2.sources with
    | none =>
      rw [hsources] at hfirst
      cases hfirst
      obtain ⟨made, rfl, hmade⟩ := ih h
      refine ⟨made, rfl, ?_⟩
      rw [hmade, List.filter_cons, hsources]
      rfl
    | some sources =>
      rw [hsources] at hfirst
      obtain ⟨_, _, -, hfirst⟩ := effect_bind_eq_ok.mp hfirst
      obtain ⟨m, hm, rfl⟩ := exists_made_of_addEntry hfirst
      obtain ⟨made, rfl, hmade⟩ := ih h
      refine ⟨made ++ [m], by rw [List.append_assoc]; rfl, ?_⟩
      rw [List.reverse_append, List.map_append, hmade, List.filter_cons, hsources]
      exact congrArg (· :: _) hm

/-- What has been made at some point of a run: first each result, then the entries with sources. -/
theorem exists_history_of_upTo (h : effect (upTo results specs before) s = (.ok p, t)) :
    ∃ history, p = .after history ∧ history.reverse.map Made.entry =
      (results.map fun e => (e.1, entryFor specs e.1)) ++ before.filter fun e => e.2.sources.isSome := by
  obtain ⟨p₁, s₁, hsingle, h⟩ := effect_bind_eq_ok.mp h
  have hstart : effect (singly specs results (.after [])) s = (.ok p₁, s₁) := hsingle
  obtain ⟨made, rfl, hmade⟩ := exists_history_of_singly hstart
  obtain ⟨more, rfl, hmore⟩ := exists_history_of_jointly h
  refine ⟨_, rfl, ?_⟩
  rw [List.append_nil, List.reverse_append, List.map_append, hmade, hmore]

/-- No entry with a name makes a variable of another name. -/
def Unrenamed (specs : Table ComposeSpec) (name : String) : Prop := ∀ e ∈ specs, e.1 = name → e.2.outName.getD name = name

theorem Unrenamed.entryFor (h : Unrenamed specs name) : (entryFor specs name).outName.getD name = name := by
  unfold Compose.entryFor
  split
  · rename_i spec hspec
    split
    · exact h _ (Table.mem_of_valueAt? hspec) rfl
    · rfl
  · rfl

/-- A source that is a variable when an entry runs is read as this variable, if no entry with the name of the
source makes another one. -/
theorem source_reads_variable_of_run (hsource : Unrenamed specs source) (hbefore : before ⊆ specs)
    (h : effect (upTo results specs before) s = (.ok p, t)) {v : ContextValue}
    (hv : p.output.valueAt? source = some v) :
    ∃ made : Composed, made.toValue = v ∧ sourceGroups? p results source = some made.groups := by
  obtain ⟨history, rfl, hentries⟩ := exists_history_of_upTo h
  obtain ⟨later, m, earlier, rfl, hvalue, hothers, hreads⟩ := source_reads_variable hv
  refine ⟨m.composed, hvalue, hreads fun l hl hname => hothers l hl ?_⟩
  have hentry : l.entry ∈ (later ++ m :: earlier).reverse.map Made.entry :=
    List.mem_map_of_mem (List.mem_reverse.mpr (List.mem_append_left _ hl))
  rw [hentries, List.mem_append] at hentry
  unfold Made.outName
  rcases hentry with hsingle | hjoint
  · obtain ⟨e, -, he⟩ := List.mem_map.mp hsingle
    obtain ⟨hkey, hspec⟩ := Prod.mk.inj he
    rw [← hspec, hkey, hname]
    exact hsource.entryFor
  · rw [hname]
    exact hsource l.entry (hbefore (List.mem_filter.mp hjoint).1) hname

/-- Where the entry with the name of a variable makes another one later, a source of this name is read as what that
entry made: `all` joins `B`, and not the variable `b`. -/
theorem source_misses_variable (s : Session) :
    (effect (run [("a", .single [.str "A"]), ("b", .single [.str "B"])]
        [("a", { outName := some "b" }), ("b", { outName := some "c" }), ("all", { sources := some ["b"] })]) s).1 =
      .ok [("b", .list [.str "A"]), ("c", .list [.str "B"]), ("all", .list [.str "B"])] := by
  rfl

end Compose

end Bitpress

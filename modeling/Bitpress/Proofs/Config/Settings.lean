import Bitpress.Proofs.Config.Layers
import Bitpress.Proofs.Merge.Laws
import Bitpress.Proofs.Record

/-!
The settings of a configuration.

A setting has a place in the layers, a section and a key, and values of some type. If
the layers of a project say nothing of another type (`Fits`), a configuration is
loaded, and every setting has the value of the highest layer that speaks of it: of the
environment, if that is not blank, else of the newer file, else of the older one, else
its built-in value (`load_settings`).

The older layer says what the section of a setting says, if no other section of the
file goes under its name (`in?_layerOf`), and a text of the layer is that text in the
file (`written_of_in?`). Words for truth values are no texts in this layer, whatever
setting they stand for.
-/

namespace Bitpress

open Decode Outcome

/-! ### Fields -/

theorem TargetDefaults.reads : Reads field "template" (optional Location.decode) template ∧
    Reads field "dest" (optional Location.decode) dest := by
  and_intros
  all_goals
    intro d key t d' h
    unfold field at h
    split at h
    case h_3 =>
      cases h
      rw [if_neg (by assumption)]
    all_goals
      obtain ⟨a, ha, h⟩ := bind_eq_ok.mp h
      cases h
      first
        | exact ha
        | rfl

theorem OutputOptions.reads : Reads field "pdf" boolean pdf ∧ Reads field "tex" boolean tex ∧
    Reads field "build_dir" (optional Location.decode) buildDir ∧
    Reads field "intermediates_dir" (optional Location.decode) intermediatesDir ∧
    Reads field "keep_intermediates" KeepIntermediates.decode keep := by
  and_intros
  all_goals
    intro o key t o' h
    unfold field at h
    split at h
    case h_6 =>
      cases h
      rw [if_neg (by assumption)]
    all_goals
      obtain ⟨a, ha, h⟩ := bind_eq_ok.mp h
      cases h
      first
        | exact ha
        | rfl

theorem Engine.reads : Reads field "command" string command ∧ Reads field "args" strings args := by
  and_intros
  all_goals
    intro e key t e' h
    unfold field at h
    split at h
    case h_3 =>
      cases h
      rw [if_neg (by assumption)]
    all_goals
      obtain ⟨a, ha, h⟩ := bind_eq_ok.mp h
      cases h
      first
        | exact ha
        | rfl

theorem Config.reads : Reads field "defaults" TargetDefaults.decode defaults ∧
    Reads field "variables" (tableOf string) vars ∧ Reads field "output" OutputOptions.decode output ∧
    Reads field "latex" Engine.decode engine := by
  and_intros
  all_goals
    intro c key t c' h
    unfold field at h
    split at h
    case h_5 =>
      cases h
      rw [if_neg (by assumption)]
    all_goals
      obtain ⟨a, ha, h⟩ := bind_eq_ok.mp h
      cases h
      first
        | exact ha
        | rfl

/-! ### Settings -/

namespace Config

/-- What can be set. -/
inductive Setting
  | template
  | dest
  | pdf
  | tex
  | buildDir
  | intermediatesDir
  | keep
  | command
  | args
  /-- The value of a name in braces. -/
  | named (name : String)

namespace Setting

/-- The section that a setting stands in. -/
def title : Setting → String
  | template | dest => "defaults"
  | pdf | tex | buildDir | intermediatesDir | keep => "output"
  | command | args => "latex"
  | named _ => "variables"

/-- The key of a setting in its section. -/
def key : Setting → String
  | template => "template"
  | dest => "dest"
  | pdf => "pdf"
  | tex => "tex"
  | buildDir => "build_dir"
  | intermediatesDir => "intermediates_dir"
  | keep => "keep_intermediates"
  | command => "command"
  | args => "args"
  | named name => name

/-- The variable of the environment for a setting. -/
def word? : Setting → Option String
  | template => some "BITS_TEMPLATE"
  | dest => some "BITS_DEST"
  | buildDir => some "BITS_BUILD_DIR"
  | command => some "BITS_LATEX"
  | _ => none

/-- A value of the type of a setting. -/
def Takes (s : Setting) (t : Tree) : Prop :=
  match s with
  | pdf | tex => ∃ b, t = .bool b
  | keep => ∃ k : KeepIntermediates, t = .str k.name
  | args => ∃ words, t = .ofStrings words
  | _ => ∃ text, t = .str text

/-- The value of a setting in a configuration. -/
def of (s : Setting) (c : Config) : Option Tree :=
  match s with
  | template => c.defaults.template.map TargetDefaults.pathTree
  | dest => c.defaults.dest.map TargetDefaults.pathTree
  | pdf => some (.bool c.output.pdf)
  | tex => some (.bool c.output.tex)
  | buildDir => c.output.buildDir.map TargetDefaults.pathTree
  | intermediatesDir => c.output.intermediatesDir.map TargetDefaults.pathTree
  | keep => some (.str c.output.keep.name)
  | command => some (.str c.engine.command)
  | args => some (.ofStrings c.engine.args)
  | named name => (c.vars.valueAt? name).map .str

/-- What a layer says of a setting. -/
def in? (layer : Table Tree) (s : Setting) : Option Tree := layer.setting? s.title s.key

/-- What the environment says of a setting, if that is not blank. -/
def given? (env : Table String) (s : Setting) : Option Tree :=
  (s.word?.bind fun name => (env.valueAt? name).filter fun text => !Text.blankText text).map .str

theorem of_applyEnv (s : Setting) (c : Config) (env : Table String) :
    s.of (c.applyEnv env) = (s.given? env <|> s.of c) := by
  have hplace : ∀ (given : Option String) (old : Option Location),
      (given.map Location.mk <|> old).map TargetDefaults.pathTree =
        (given.map Tree.str <|> old.map TargetDefaults.pathTree) := by
    intro given old
    cases given <;> rfl
  have hcommand : ∀ (given : Option String) (old : String),
      some (Tree.str (given.getD old)) = (given.map Tree.str <|> some (.str old)) := by
    intro given old
    cases given <;> rfl
  cases s with
  | template => exact hplace _ _
  | dest => exact hplace _ _
  | buildDir => exact hplace _ _
  | command => exact hcommand _ _
  | _ => rfl

end Setting

/-- What a layer says of settings is of their types. -/
structure Fits (layer : Table Tree) : Prop where
  maps : ∀ s : Setting, ∀ t, layer.valueAt? s.title = some t → ∃ entries, t = .map entries
  takes : ∀ s : Setting, ∀ t, s.in? layer = some t → s.Takes t

namespace Fits

variable {layer base above : Table Tree}

theorem merge_of_takes {s : Setting} {t : Tree} (h : s.Takes t) (u : Tree) : Tree.merge .replace u t = t := by
  cases s
  case args =>
    obtain ⟨words, rfl⟩ := h
    exact Tree.merge_replaced u _
  all_goals
    obtain ⟨_, rfl⟩ := h
    unfold Tree.merge
    rfl

/-- Of two layers, what the upper one says counts. -/
theorem in?_merge (hbase : Fits base) (habove : Fits above) (htidy : above.Tidy) (s : Setting) :
    s.in? (Table.mergeWith (Tree.merge .replace) base above) = (s.in? above <|> s.in? base) := by
  unfold Setting.in? Table.setting?
  rw [Table.valueAt?_mergeWith htidy.distinct]
  cases hu : base.valueAt? s.title with
  | none => cases above.valueAt? s.title <;> simp
  | some u =>
    cases hv : above.valueAt? s.title with
    | none => simp
    | some v =>
      obtain ⟨low, rfl⟩ := hbase.maps s u hu
      obtain ⟨high, rfl⟩ := habove.maps s v hv
      have hhigh : Table.Distinct high := Tree.keyed_map.mp (htidy.keyed_at hv)
      rw [Option.merge_some_some, Tree.merge_map, Option.bind_some, Option.bind_some, Option.bind_some]
      show Table.valueAt? (Table.mergeWith (Tree.merge .replace) low high) s.key =
        (Table.valueAt? high s.key <|> Table.valueAt? low s.key)
      rw [Table.valueAt?_mergeWith hhigh]
      cases hvalue : Table.valueAt? high s.key with
      | none => simp
      | some w =>
        have htakes : s.Takes w := habove.takes s w (by rw [Setting.in?, Table.setting?, hv]; exact hvalue)
        cases Table.valueAt? low s.key with
        | none => rfl
        | some u => exact congrArg some (merge_of_takes htakes u)

theorem merge (hbase : Fits base) (habove : Fits above) (htidy : above.Tidy) :
    Fits (Table.mergeWith (Tree.merge .replace) base above) := by
  refine ⟨fun s t ht => ?_, fun s t ht => ?_⟩
  · rw [Table.valueAt?_mergeWith htidy.distinct] at ht
    cases hu : base.valueAt? s.title with
    | none =>
      rw [hu, Option.merge_none_left] at ht
      exact habove.maps s t ht
    | some u =>
      cases hv : above.valueAt? s.title with
      | none =>
        rw [hu, hv, Option.merge_none_right] at ht
        cases ht
        exact hbase.maps s t hu
      | some v =>
        obtain ⟨low, rfl⟩ := hbase.maps s u hu
        obtain ⟨high, rfl⟩ := habove.maps s v hv
        rw [hu, hv, Option.merge_some_some, Tree.merge_map] at ht
        cases ht
        exact ⟨_, rfl⟩
  · rw [hbase.in?_merge habove htidy] at ht
    cases habove' : s.in? above with
    | none =>
      rw [habove'] at ht
      exact hbase.takes s t ht
    | some v =>
      rw [habove'] at ht
      exact habove.takes s t (habove'.trans ht)

/-! ### A layer that is decoded -/

/-- An entry of a section is of the type of its setting. -/
theorem takes_of_mem (h : Fits layer) (htidy : layer.Tidy) {s : Setting} {entries : Table Tree} {e : String × Tree}
    (hentries : (s.title, .map entries) ∈ layer) (he : e ∈ entries) (hkey : s.key = e.1) : s.Takes e.2 := by
  have hsection : layer.valueAt? s.title = some (.map entries) := Table.valueAt?_of_mem htidy.distinct hentries
  refine h.takes s e.2 ?_
  rw [Setting.in?, Table.setting?, hsection, hkey]
  exact Table.valueAt?_of_mem (Tree.keyed_map.mp (htidy.keyed_at hsection)) he

end Fits

/-- What stands under a key has the type of each setting that it is the key of. -/
def Suits (title key : String) (t : Tree) : Prop := ∀ s : Setting, s.title = title → s.key = key → s.Takes t

end Config

section Steps
variable {key : String} {t : Tree}

theorem TargetDefaults.exists_field (h : Config.Suits "defaults" key t) (d : TargetDefaults) :
    ∃ d', field d key t = .ok d' := by
  unfold field
  split
  · obtain ⟨text, rfl⟩ := h .template rfl rfl
    exact ⟨_, rfl⟩
  · obtain ⟨text, rfl⟩ := h .dest rfl rfl
    exact ⟨_, rfl⟩
  · exact ⟨d, rfl⟩

theorem KeepIntermediates.decode_name (k : KeepIntermediates) : decode (.str k.name) = .ok k := by
  cases k <;> rfl

theorem OutputOptions.exists_field (h : Config.Suits "output" key t) (o : OutputOptions) : ∃ o', field o key t = .ok o' := by
  unfold field
  split
  · obtain ⟨b, rfl⟩ := h .pdf rfl rfl
    exact ⟨_, rfl⟩
  · obtain ⟨b, rfl⟩ := h .tex rfl rfl
    exact ⟨_, rfl⟩
  · obtain ⟨text, rfl⟩ := h .buildDir rfl rfl
    exact ⟨_, rfl⟩
  · obtain ⟨text, rfl⟩ := h .intermediatesDir rfl rfl
    exact ⟨_, rfl⟩
  · obtain ⟨k, rfl⟩ := h .keep rfl rfl
    rw [k.decode_name]
    exact ⟨_, rfl⟩
  · exact ⟨o, rfl⟩

theorem Engine.exists_field (h : Config.Suits "latex" key t) (e : Engine) : ∃ e', field e key t = .ok e' := by
  unfold field
  split
  · obtain ⟨text, rfl⟩ := h .command rfl rfl
    exact ⟨_, rfl⟩
  · obtain ⟨words, rfl⟩ := h .args rfl rfl
    rw [Tree.ofStrings, strings_write]
    exact ⟨_, rfl⟩
  · exact ⟨e, rfl⟩

/-- A table of texts is read as what it is. -/
theorem exists_texts {entries : Table Tree} (h : ∀ e ∈ entries, Config.Suits "variables" e.1 e.2) :
    ∃ vars : Variables, entries = vars.mapValues .str := by
  induction entries with
  | nil => exact ⟨[], rfl⟩
  | cons e rest ih =>
    obtain ⟨hfirst, hrest⟩ := List.forall_mem_cons.mp h
    obtain ⟨vars, rfl⟩ := ih hrest
    obtain ⟨key, t⟩ := e
    obtain ⟨text, rfl⟩ := hfirst (.named key) rfl rfl
    exact ⟨(key, text) :: vars, rfl⟩

end Steps

namespace Config

variable {layer : Table Tree} {c : Config}

theorem exists_decode (h : Fits layer) (htidy : layer.Tidy) : ∃ c, decode (.map layer) = .ok c := by
  refine exists_fills (fun e he c => ?_) ({} : Config)
  obtain ⟨title, t⟩ := e
  have hmap : ∀ s : Setting, s.title = title → ∃ entries, t = .map entries := fun s hs =>
    h.maps s t (hs ▸ Table.valueAt?_of_mem htidy.distinct he)
  have hsuits : ∀ entries, t = .map entries → ∀ e ∈ entries, Suits title e.1 e.2 := by
    rintro entries rfl e hmem s rfl hkey
    exact h.takes_of_mem htidy he hmem hkey
  show ∃ c', field c title t = .ok c'
  unfold field
  split
  · obtain ⟨entries, rfl⟩ := hmap .template rfl
    obtain ⟨d, hd⟩ := exists_fills (fun e he => TargetDefaults.exists_field (hsuits entries rfl e he)) ({} : TargetDefaults)
    exact ⟨_, bind_eq_ok.mpr ⟨d, hd, rfl⟩⟩
  · obtain ⟨entries, rfl⟩ := hmap (.named "") rfl
    obtain ⟨vars, rfl⟩ := exists_texts (hsuits entries rfl)
    exact ⟨_, bind_eq_ok.mpr ⟨vars, tableOf_write string_write, rfl⟩⟩
  · obtain ⟨entries, rfl⟩ := hmap .pdf rfl
    obtain ⟨o, ho⟩ := exists_fills (fun e he => OutputOptions.exists_field (hsuits entries rfl e he)) ({} : OutputOptions)
    exact ⟨_, bind_eq_ok.mpr ⟨o, ho, rfl⟩⟩
  · obtain ⟨entries, rfl⟩ := hmap .command rfl
    obtain ⟨e, he⟩ := exists_fills (fun e he => Engine.exists_field (hsuits entries rfl e he)) ({} : Engine)
    exact ⟨_, bind_eq_ok.mpr ⟨e, he, rfl⟩⟩
  · exact ⟨c, rfl⟩

/-- A setting that is read into a part of one section has what the layer says of it, or the part is as it was. -/
theorem of_part {σ α : Type} {title key : String} {decodeSection : Tree → Decoded σ} {sectionOf : Config → σ}
    {field : σ → String → Tree → Decoded σ} {read : Tree → Decoded α} {part : σ → α} (write : α → Option Tree)
    (hsection : Reads Config.field title decodeSection sectionOf) (hpart : Reads field key read part)
    (hfills : ∀ entries s, decodeSection (.map entries) = .ok s → Fills field (sectionOf {}) entries s)
    (hmap : ∀ t, layer.valueAt? title = some t → ∃ entries, t = .map entries) (htidy : layer.Tidy)
    (hwrite : ∀ t a, layer.setting? title key = some t → read t = .ok a → write a = some t)
    (hc : decode (.map layer) = .ok c) :
    write (part (sectionOf c)) = (layer.setting? title key <|> write (part (sectionOf {}))) := by
  have hread := Fills.part hc hsection htidy.distinct
  unfold Table.setting? at hwrite ⊢
  cases hlayer : layer.valueAt? title with
  | none =>
    rw [hlayer] at hread
    rw [show sectionOf c = sectionOf {} from hread]
    rfl
  | some t =>
    obtain ⟨entries, rfl⟩ := hmap t hlayer
    rw [hlayer] at hread hwrite
    have hvalue := Fills.part (hfills entries _ hread) hpart (Tree.keyed_map.mp (htidy.keyed_at hlayer))
    rw [Option.bind_some]
    show _ = (Table.valueAt? entries key <|> _)
    cases hentry : Table.valueAt? entries key with
    | none =>
      rw [hentry] at hvalue
      rw [show part (sectionOf c) = part (sectionOf {}) from hvalue]
      rfl
    | some u =>
      rw [hentry] at hvalue
      exact hwrite u _ hentry hvalue

theorem of_named (h : Fits layer) (htidy : layer.Tidy) (hc : decode (.map layer) = .ok c) (name : String) :
    (c.vars.valueAt? name).map .str = layer.setting? "variables" name := by
  have hread := Fills.part hc reads.2.1 htidy.distinct
  unfold Table.setting?
  cases hlayer : layer.valueAt? "variables" with
  | none =>
    rw [hlayer] at hread
    rw [show c.vars = [] from hread]
    rfl
  | some t =>
    obtain ⟨entries, rfl⟩ := h.maps (.named name) t hlayer
    obtain ⟨vars, rfl⟩ := exists_texts fun e he s hs hkey =>
      h.takes_of_mem htidy (Table.mem_of_valueAt? (hs ▸ hlayer)) he hkey
    have hvars : tableOf string (.map (vars.mapValues .str)) = .ok c.vars := by rwa [hlayer] at hread
    cases (tableOf_write string_write).symm.trans hvars
    exact (Table.valueAt?_mapValues Tree.str c.vars name).symm

/-- What is read as the value that it was written for is what would be written for the value that is read. -/
theorem written_of_read {α β : Type} {read : Tree → Decoded α} {spell : β → Tree} {value : β → α}
    {write : α → Option Tree} (hread : ∀ x, read (spell x) = .ok (value x))
    (hwrite : ∀ x, write (value x) = some (spell x)) {t : Tree} {a : α} (ht : ∃ x, t = spell x) (ha : read t = .ok a) :
    write a = some t := by
  obtain ⟨x, rfl⟩ := ht
  cases (hread x).symm.trans ha
  exact hwrite x

/-- Every setting is decoded to what a layer says of it, and has its built-in value if that is nothing. -/
theorem of_decode (h : Fits layer) (htidy : layer.Tidy) (hc : decode (.map layer) = .ok c) (s : Setting) :
    s.of c = (s.in? layer <|> s.of {}) := by
  have hpath : ∀ {t a}, (∃ x, t = .str x) → optional Location.decode t = .ok a →
      a.map TargetDefaults.pathTree = some t :=
    written_of_read (fun x => show optional Location.decode (.str x) = .ok (some ⟨x⟩) from rfl) fun _ => rfl
  have hflag : ∀ {t a}, (∃ b, t = .bool b) → boolean t = .ok a → some (.bool a) = some t :=
    written_of_read (fun b => show boolean (.bool b) = .ok b from rfl) fun _ => rfl
  have htext : ∀ {t a}, (∃ x, t = .str x) → string t = .ok a → some (.str a) = some t :=
    written_of_read string_write fun _ => rfl
  have hkeep : ∀ {t a}, (∃ k : KeepIntermediates, t = .str k.name) → KeepIntermediates.decode t = .ok a →
      some (.str a.name) = some t := written_of_read KeepIntermediates.decode_name fun _ => rfl
  have hargs : ∀ {t a}, (∃ words, t = .ofStrings words) → strings t = .ok a → some (.ofStrings a) = some t :=
    written_of_read strings_write fun _ => rfl
  have hmap := h.maps s
  have htakes := h.takes s
  cases s with
  | template =>
    exact of_part (Option.map TargetDefaults.pathTree) reads.1 TargetDefaults.reads.1 (fun _ _ h => h) hmap htidy
      (fun t _ ht => hpath (htakes t ht)) hc
  | dest =>
    exact of_part (Option.map TargetDefaults.pathTree) reads.1 TargetDefaults.reads.2 (fun _ _ h => h) hmap htidy
      (fun t _ ht => hpath (htakes t ht)) hc
  | pdf =>
    exact of_part (fun b => some (.bool b)) reads.2.2.1 OutputOptions.reads.1 (fun _ _ h => h) hmap htidy
      (fun t _ ht => hflag (htakes t ht)) hc
  | tex =>
    exact of_part (fun b => some (.bool b)) reads.2.2.1 OutputOptions.reads.2.1 (fun _ _ h => h) hmap htidy
      (fun t _ ht => hflag (htakes t ht)) hc
  | buildDir =>
    exact of_part (Option.map TargetDefaults.pathTree) reads.2.2.1 OutputOptions.reads.2.2.1 (fun _ _ h => h) hmap
      htidy (fun t _ ht => hpath (htakes t ht)) hc
  | intermediatesDir =>
    exact of_part (Option.map TargetDefaults.pathTree) reads.2.2.1 OutputOptions.reads.2.2.2.1 (fun _ _ h => h) hmap
      htidy (fun t _ ht => hpath (htakes t ht)) hc
  | keep =>
    exact of_part (fun k => some (.str k.name)) reads.2.2.1 OutputOptions.reads.2.2.2.2 (fun _ _ h => h) hmap htidy
      (fun t _ ht => hkeep (htakes t ht)) hc
  | command =>
    exact of_part (fun x => some (.str x)) reads.2.2.2 Engine.reads.1 (fun _ _ h => h) hmap htidy
      (fun t _ ht => htext (htakes t ht)) hc
  | args =>
    exact of_part (fun words => some (.ofStrings words)) reads.2.2.2 Engine.reads.2 (fun _ _ h => h) hmap htidy
      (fun t _ ht => hargs (htakes t ht)) hc
  | named name =>
    rw [Setting.of, of_named h htidy hc]
    show _ = (layer.setting? "variables" name <|> none)
    simp

/-! ### Loading -/

/-- What the files of a project hold: the sections of the older file and the layer of the newer one, and nothing where
there is no such file. -/
structure Holds (files : FileTree) (root : Location) (sections newer : Table Tree) : Prop where
  older : if files.isFile (root.join ⟨legacyFileName⟩) then
      ∃ text, files.readText (root.join ⟨legacyFileName⟩) = .ok text ∧ Ini.read text = .ok (.map sections)
    else sections = []
  newer : match file? files root with
    | some p => ∃ text, files.readText p = .ok text ∧ readToml text = .ok (.map newer)
    | none => newer = []

section Loading
variable {files : FileTree} {root : Location} {sections newer : Table Tree}

theorem Holds.tidy_sections (h : Holds files root sections newer) : sections.Tidy := by
  have holder := h.older
  split at holder
  · obtain ⟨_, _, hread⟩ := holder
    obtain ⟨_, hmap, htidy⟩ := Ini.tidy_of_read hread
    cases hmap
    exact htidy
  · exact holder ▸ Table.tidy_nil

theorem Holds.tidy_newer (h : Holds files root sections newer) : newer.Tidy := by
  have hnewer := h.newer
  split at hnewer
  · obtain ⟨text, _, hread⟩ := hnewer
    unfold readToml at hread
    split at hread
    · rename_i hread'
      cases hread
      obtain ⟨_, hmap, htidy⟩ := Toml.tidy_of_read hread'
      cases hmap
      exact htidy
    · cases hread
    · cases hread
  · exact hnewer ▸ Table.tidy_nil

theorem layOver_eq {read : String → Outcome Tree} {p : Location} {text : String} {t : Tree}
    (htext : files.readText p = .ok text) (hread : read text = .ok t) (layer : Tree) :
    layOver files read layer p = .ok (layer.merge .replace t) := by
  unfold layOver
  rw [htext]
  exact bind_eq_ok.mpr ⟨text, rfl, bind_eq_ok.mpr ⟨t, hread, rfl⟩⟩

/-- A configuration is decoded from the newer layer over the older one, and put under the environment. -/
theorem Holds.load_eq (h : Holds files root sections newer) (env : Table String) :
    load files root env =
      (ofTree (.map (Table.mergeWith (Tree.merge .replace) (layerOf sections) newer))).map fun c => c.applyEnv env := by
  have hend : ∀ t : Tree, (ofTree t >>= fun c => pure (c.applyEnv env)) = (ofTree t).map fun c => c.applyEnv env :=
    fun t => by cases ofTree t <;> rfl
  have hnewer : (match file? files root with
      | some p => layOver files readToml (.map (layerOf sections)) p >>= fun t => ofTree t >>= fun c => pure (c.applyEnv env)
      | none => ofTree (.map (layerOf sections)) >>= fun c => pure (c.applyEnv env)) =
        (ofTree (.map (Table.mergeWith (Tree.merge .replace) (layerOf sections) newer))).map fun c => c.applyEnv env := by
    have hnewer := h.newer
    cases hfile : file? files root with
    | none =>
      rw [hfile] at hnewer
      cases hnewer
      exact hend _
    | some p =>
      rw [hfile] at hnewer
      obtain ⟨text, htext, hread⟩ := hnewer
      show (layOver files readToml (.map (layerOf sections)) p >>= _) = _
      rw [layOver_eq htext hread, Tree.merge_map]
      exact hend _
  have holder := h.older
  unfold load
  split at holder
  · obtain ⟨text, htext, hread⟩ := holder
    have hlayer : layOver files readIni (.map []) (root.join ⟨legacyFileName⟩) = .ok (.map (layerOf sections)) := by
      rw [layOver_eq htext (readIni_eq_ok hread)]
      exact congrArg Except.ok (Tree.merge_empty_left _ (Tree.keyed_map.mpr (tidy_layerOf h.tidy_sections).distinct))
    dsimp only
    rw [if_pos ‹_›, hlayer]
    exact hnewer
  · dsimp only
    rw [if_neg ‹_›]
    cases holder
    exact hnewer

/-- **A setting has the value of the highest layer that speaks of it**: of the environment, if that is not blank, else of
the newer file, else of the older one; and it keeps its built-in value if none of them does. -/
theorem load_settings (h : Holds files root sections newer) (holder : Fits (layerOf sections)) (hnewer : Fits newer)
    (env : Table String) : ∃ c, load files root env = .ok c ∧
      ∀ s : Setting, s.of c = (s.given? env <|> s.in? newer <|> s.in? (layerOf sections) <|> s.of {}) := by
  have htidy : Table.Tidy (Table.mergeWith (Tree.merge .replace) (layerOf sections) newer) :=
    (tidy_layerOf h.tidy_sections).mergeWith h.tidy_newer _
  have hfits := holder.merge hnewer h.tidy_newer
  obtain ⟨c, hc⟩ := exists_decode hfits htidy
  refine ⟨c.applyEnv env, ?_, fun s => ?_⟩
  · rw [h.load_eq, ofTree, hc]
    rfl
  · rw [s.of_applyEnv, of_decode hfits htidy hc, holder.in?_merge hnewer h.tidy_newer]
    cases s.in? newer <;> rfl

example : ((load (.dir [("p", .dir [(".bitsrc", .file (.text "[DEFAULT]\ntemplate = exam.tex\ndest = old\n")),
      ("bits.toml", .file (.text "[defaults]\ndest = \"out\"\n"))])]) ⟨"/p"⟩ [("BITS_DEST", " ")]).map
      fun c => (c.defaults.template, c.defaults.dest)).toOption = some (some ⟨"exam.tex"⟩, some ⟨"out"⟩) := by
  decide +kernel

/-- What a section of the older file says, if no other goes under its name. -/
theorem in?_layerOf {e : String × Tree} {entries : Table Tree} {t : Tree} {s : Setting} (he : e ∈ sections)
    (hmap : e.2 = .map entries) (hname : iniSectionName e.1 = s.title)
    (halone : ∀ other ∈ sections, iniSectionName other.1 = s.title → other = e) (ht : entries.valueAt? s.key = some t) :
    s.in? (layerOf sections) = some (iniValue t) := by
  rw [Setting.in?, setting?_layerOf, ← hname, getLast?_under he hmap (hname ▸ halone), Option.bind_some, ht]
  rfl

/-- A text of the older layer is a text of the file, of the last section that goes under its name. -/
theorem written_of_in? {s : Setting} {text : String} (h : s.in? (layerOf sections) = some (.str text)) :
    ((under s.title sections).getLast?.bind fun entries => entries.valueAt? s.key) = some (.str text) := by
  rw [Setting.in?, setting?_layerOf] at h
  obtain ⟨t, ht, hvalue⟩ := Option.map_eq_some_iff.mp h
  rw [ht, eq_of_iniValue hvalue]

/-- A word for a truth value is no text, so a variable cannot have it. -/
example : ∃ e, ofTree (.map (layerOf [("variables", .map [("answers", .str "yes")])])) = .error e := ⟨_, rfl⟩

end Loading

end Config

end Bitpress

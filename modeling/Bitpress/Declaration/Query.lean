import Bitpress.Declaration.Basic

/-!
Queries: which elements they select, how the result is picked from, and what the
selected bits are bound to; and compose entries, which combine results.
-/

namespace Bitpress

/-- What a query selects. -/
inductive QueryKind
  | bits
  | constants
deriving DecidableEq, Inhabited

/-- The predicates of a query. Keys without a meaning of their own ask for equal metadata. -/
structure WhereClause where
  id : Option String := none
  name : Option String := none
  tags : List String := []
  has : List String := []
  missing : List String := []
  metadata : Table Tree := []
deriving Inhabited

/-- What is picked from a list of matches. -/
structure SelectSpec where
  indices : Option (List Int) := none
  k : Option Nat := none
  limit : Option Nat := none
  offset : Option Nat := none
  shuffle : Bool := false
  seed : Option Nat := none
  sample : Option Nat := none
deriving DecidableEq, Inhabited

/-- A preset by its place, counted from one, or by its name. -/
inductive PresetSelector
  | index (n : Int)
  | name (s : String)
deriving DecidableEq, Inhabited

/-- What a query lays over the matched bits. -/
structure WithClause where
  context : Table Tree := []
  queries : Table Tree := []
deriving Inhabited

structure QuerySpec where
  registry : Option String := none
  kind : Option QueryKind := none
  /-- The older place of the predicates, which `where` takes over. -/
  query : Option WhereClause := none
  «where» : Option WhereClause := none
  select : Option SelectSpec := none
  preset : Option PresetSelector := none
  «with» : Option WithClause := none
  context : Table Tree := []
  metadata : Table Tree := []
deriving Inhabited

/-- The predicates that count: `where` if it is given, else `query`. -/
def QuerySpec.predicate? (q : QuerySpec) : Option WhereClause := q.where <|> q.query

/-- An entry of a query map: one query, or several whose results stay apart. -/
inductive QueryEntry
  | one (spec : QuerySpec)
  | many (specs : List QuerySpec)
deriving Inhabited

def QueryEntry.specs : QueryEntry → List QuerySpec
  | .one spec => [spec]
  | .many specs => specs

def QueryEntry.isGrouped : QueryEntry → Bool
  | .one _ => false
  | .many _ => true

/-- One entry of a compose map; one with `from` takes up the results of others. -/
structure ComposeSpec where
  flatten : Option Bool := none
  merge : Option String := none
  outName : Option String := none
  dedupe : Option String := none
  shuffle : Bool := false
  seed : Option Nat := none
  limit : Option Nat := none
  sources : Option (List String) := none
deriving DecidableEq, Inhabited

namespace QueryKind

def names : List String := ["bits", "blocks", "constants"]

def ofName (s : String) : Decoded QueryKind :=
  match s with
  | "bits" => .ok .bits
  | "blocks" => .ok .bits
  | "constants" => .ok .constants
  | _ => .error (.unknownVariant s names)

def decode (t : Tree) : Decoded QueryKind := Decode.choice ofName t

def encode : QueryKind → Tree
  | .bits => .str "bits"
  | .constants => .str "constants"

/-- The declared kind; without one, the query named `constants` selects constants. -/
def forQuery (name : String) : Option QueryKind → QueryKind
  | some kind => kind
  | none => if name = "constants" then .constants else .bits

end QueryKind

namespace WhereClause

/-- The clause as read so far, and whether its id was met. -/
structure Draft where
  clause : WhereClause := {}
  seenId : Bool := false

def field (d : Draft) (key : String) (t : Tree) : Decoded Draft :=
  let c := d.clause
  let withId : Decoded Draft :=
    if d.seenId then .error (.duplicateField "id")
    else do return ⟨{ c with id := ← Decode.optional Decode.string t }, true⟩
  match key with
  | "id" => withId
  | "id_" => withId
  | "name" => do return { d with clause := { c with name := ← Decode.optional Decode.string t } }
  | "tags" => do return { d with clause := { c with tags := ← Decode.strings t } }
  | "has" => do return { d with clause := { c with has := ← Decode.strings t } }
  | "missing" => do return { d with clause := { c with missing := ← Decode.strings t } }
  | _ => .ok { d with clause := { c with metadata := c.metadata.put key t } }

def decode (t : Tree) : Decoded WhereClause := do
  return (← Decode.fields "WhereClause" field {} t).clause

def encode (c : WhereClause) : Tree :=
  .map (Encode.optional "id" .str c.id ++ Encode.optional "name" .str c.name ++
    Encode.list "tags" .str c.tags ++ Encode.list "has" .str c.has ++
    Encode.list "missing" .str c.missing ++ c.metadata)

end WhereClause

namespace SelectSpec

def field (s : SelectSpec) (key : String) (t : Tree) : Decoded SelectSpec :=
  match key with
  | "indices" => do return { s with indices := ← Decode.optional (Decode.list Decode.signed) t }
  | "k" => do return { s with k := ← Decode.optional Decode.count t }
  | "limit" => do return { s with limit := ← Decode.optional Decode.count t }
  | "offset" => do return { s with offset := ← Decode.optional Decode.count t }
  | "shuffle" => do return { s with shuffle := ← Decode.boolean t }
  | "seed" => do return { s with seed := ← Decode.optional Decode.unsigned t }
  | "sample" => do return { s with sample := ← Decode.optional Decode.count t }
  | _ => .ok s

def decode (t : Tree) : Decoded SelectSpec :=
  Decode.fieldsOrItems "SelectSpec" ["indices", "k", "limit", "offset", "shuffle", "seed", "sample"] 0
    field {} t

def encode (s : SelectSpec) : Tree :=
  .map (Encode.optional "indices" (fun is => .list (is.map .int)) s.indices ++
    Encode.optional "k" .nat s.k ++ Encode.optional "limit" .nat s.limit ++
    Encode.optional "offset" .nat s.offset ++ Encode.flag "shuffle" s.shuffle ++
    Encode.optional "seed" .nat s.seed ++ Encode.optional "sample" .nat s.sample)

end SelectSpec

namespace PresetSelector

def decode (t : Tree) : Decoded PresetSelector :=
  match Decode.signed t, t with
  | .ok n, _ => .ok (.index n)
  | .error _, .str s => .ok (.name s)
  | .error _, _ => .error (.noVariant "PresetSelector")

def encode : PresetSelector → Tree
  | .index n => .int n
  | .name s => .str s

end PresetSelector

namespace WithClause

def names : List String := ["context", "queries"]

def field (w : WithClause) (key : String) (t : Tree) : Decoded WithClause :=
  match key with
  | "context" => do return { w with context := ← Decode.table t }
  | "queries" => do return { w with queries := ← Decode.table t }
  | _ => .error (.unknownField key names)

def decode (t : Tree) : Decoded WithClause := Decode.fieldsOrItems "WithClause" names 0 field {} t

def encode (w : WithClause) : Tree :=
  .map (Encode.table "context" w.context ++ Encode.table "queries" w.queries)

end WithClause

namespace QuerySpec

def field (q : QuerySpec) (key : String) (t : Tree) : Decoded QuerySpec :=
  match key with
  | "registry" => do return { q with registry := ← Decode.optional Decode.string t }
  | "kind" => do return { q with kind := ← Decode.optional QueryKind.decode t }
  | "query" => do return { q with query := ← Decode.optional WhereClause.decode t }
  | "where" => do return { q with «where» := ← Decode.optional WhereClause.decode t }
  | "select" => do return { q with select := ← Decode.optional SelectSpec.decode t }
  | "preset" => do return { q with preset := ← Decode.optional PresetSelector.decode t }
  | "with" => do return { q with «with» := ← Decode.optional WithClause.decode t }
  | "context" => do return { q with context := ← Decode.table t }
  | "metadata" => do return { q with metadata := ← Decode.table t }
  | _ => .ok q

def decode (t : Tree) : Decoded QuerySpec :=
  Decode.fieldsOrItems "QuerySpec"
    ["registry", "kind", "query", "where", "select", "preset", "with", "context", "metadata"] 0 field
    {} t

def encode (q : QuerySpec) : Tree :=
  .map (Encode.optional "registry" .str q.registry ++ Encode.optional "kind" QueryKind.encode q.kind ++
    Encode.optional "query" WhereClause.encode q.query ++
    Encode.optional "where" WhereClause.encode q.where ++
    Encode.optional "select" SelectSpec.encode q.select ++
    Encode.optional "preset" PresetSelector.encode q.preset ++
    Encode.optional "with" WithClause.encode q.with ++ Encode.table "context" q.context ++
    Encode.table "metadata" q.metadata)

end QuerySpec

namespace QueryEntry

/-- Reads the entry `name` of a query map. Null is a query that selects everything. -/
def read (name : String) (t : Tree) : Outcome QueryEntry :=
  let invalid (fault : DecodeFault) : Error :=
    .invalidQuery (DecodeFault.ticked name ++ ": " ++ fault.message)
  match t with
  | .list items => (items.mapM QuerySpec.decode).mapError invalid |>.map .many
  | .map _ => (QuerySpec.decode t).mapError invalid |>.map .one
  | .null => .ok (.one {})
  | other =>
    .error (.invalidQuery (DecodeFault.ticked name ++
      ": expected a query map or a list of query maps, got " ++ DecodeFault.ticked (Json.compact other)))

end QueryEntry

namespace ComposeSpec

def field (c : ComposeSpec) (key : String) (t : Tree) : Decoded ComposeSpec :=
  match key with
  | "flatten" => do return { c with flatten := ← Decode.optional Decode.boolean t }
  | "merge" => do return { c with merge := ← Decode.optional Decode.string t }
  | "as" => do return { c with outName := ← Decode.optional Decode.string t }
  | "dedupe" => do return { c with dedupe := ← Decode.optional Decode.string t }
  | "shuffle" => do return { c with shuffle := ← Decode.boolean t }
  | "seed" => do return { c with seed := ← Decode.optional Decode.unsigned t }
  | "limit" => do return { c with limit := ← Decode.optional Decode.count t }
  | "from" => do return { c with sources := ← Decode.optional Decode.strings t }
  | _ => .ok c

def decode (t : Tree) : Decoded ComposeSpec :=
  Decode.fieldsOrItems "ComposeSpec"
    ["flatten", "merge", "as", "dedupe", "shuffle", "seed", "limit", "from"] 0 field {} t

def encode (c : ComposeSpec) : Tree :=
  .map (Encode.optional "flatten" .bool c.flatten ++ Encode.optional "merge" .str c.merge ++
    Encode.optional "as" .str c.outName ++ Encode.optional "dedupe" .str c.dedupe ++
    Encode.flag "shuffle" c.shuffle ++ Encode.optional "seed" .nat c.seed ++
    Encode.optional "limit" .nat c.limit ++ Encode.optional "from" .ofStrings c.sources)

/-- Reads a compose map; null is an entry without options. -/
def readTable (compose : Table Tree) : Outcome (Table ComposeSpec) :=
  compose.mapM fun (name, t) =>
    if t.isNull then .ok (name, {})
    else
      match decode t with
      | .ok spec => .ok (name, spec)
      | .error fault =>
        .error (.invalidQuery ("compose entry " ++ DecodeFault.ticked name ++ ": " ++ fault.message))

end ComposeSpec

end Bitpress

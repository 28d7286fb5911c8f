/-
Module: Puter.Kv.SystemKVStore
Purpose: The KV store over its database table (stores/systemKv/SystemKVStore.ts), for one namespace and
  with reads that go through to the table: the checks, the point operations, the document operations
  with the expressions they render, and the paged listing. Consumed capacity, and the cache that the
  store may read through, are not part of these functions' answers.
Trusted boundary: none
Main exports: KvTable, expireAt, incr, add, list
-/
import Puter.Core.Actor
import Puter.Kv.ReadCache
import Puter.Kv.UpdateExpression
import Puter.Library.SortedTable
import Puter.Library.StateRun

namespace Puter

open Document StateRun

abbrev KvTable := SortedTable Text Attributes

/-- What a call reads of its surroundings: the clock in seconds, the size limit of the database on
    expressions, the bytes of a value's JSON text, and how many of some entries fit one answer of the
    database to a query. -/
structure KvEnv where
  now : ℚ
  tooLarge : UpdateExpression → Bool
  jsonBytes : Json → ℕ
  pageCapacity : List (Text × Attributes) → ℕ

/-- How a call fails: an error of the store, or a refusal of the database that passes through. -/
inductive KvError where
  | http (error : HttpError)
  | validation (error : UpdateError)
deriving DecidableEq, Repr

abbrev KvRun := EStateM KvError KvTable

def badRequest (message : Text) : KvError := .http ⟨400, message, "bad_request".toList⟩

def valueName : Text := ['v', 'a', 'l', 'u', 'e']

def ttlName : Text := ['t', 't', 'l']

/-- `KV_PRIVATE_ATTR` -/
def noShareName : Text := ['n', 'o', 'S', 'h', 'a', 'r', 'e']

def truthy : Json → Bool
  | .null => false
  | .bool b => b
  | .number n => n ≠ 0
  | .text t => t ≠ []
  | .list _ | .map _ => true

def itemTtl (item : Attributes) : Option ℚ :=
  match field ttlName item with
  | some (.number ttl) => some ttl
  | _ => none

def isPrivate (item : Attributes) : Bool := (field noShareName item).any truthy

def readItem (item : Attributes) : KvCachedItem Json where
  value := match field valueName item with
    | some .null => none
    | stored => stored
  ttl := itemTtl item
  noShare := isPrivate item

def wholeItem (value : Json) (expireAt : Option ℚ) (disableSharing : Bool) : Attributes :=
  (valueName, value) :: (expireAt.toList.map fun ttl => (ttlName, .number ttl)) ++
    if disableSharing then [(noShareName, .bool true)] else []

def unsafeObjectKeys : List Text :=
  [['_', '_', 'p', 'r', 'o', 't', 'o', '_', '_'],
    ['c', 'o', 'n', 's', 't', 'r', 'u', 'c', 't', 'o', 'r'],
    ['p', 'r', 'o', 't', 'o', 't', 'y', 'p', 'e']]

def unsafeKeyError (key subject : Text) : KvError :=
  badRequest ("kv: ".toList ++ subject ++ " `".toList ++ key ++ "` is not allowed".toList)

mutual
/-- The first unsafe key the walk of a value meets: the keys of a map before what is in them, and of
    several values the last one first. -/
def firstUnsafeKey : Json → Option Text
  | .list items => firstUnsafeItem items
  | .map fields =>
      ((fields.map Prod.fst).find? unsafeObjectKeys.contains).or (firstUnsafeField fields)
  | .null | .bool _ | .number _ | .text _ => none

def firstUnsafeItem : List Json → Option Text
  | [] => none
  | item :: rest => (firstUnsafeItem rest).or (firstUnsafeKey item)

def firstUnsafeField : List (Text × Json) → Option Text
  | [] => none
  | field :: rest => (firstUnsafeField rest).or (firstUnsafeKey field.2)
end

/-- A place `[12]` or `[]` starts here. -/
def startsIndex : Text → Bool
  | '[' :: rest => (rest.dropWhile Char.isDigit).head? = some ']'
  | _ => false

/-- `chunk.split(/\[\d*\]/g)[0]`: the text before the first index. -/
def cleanedChunk : Text → Text
  | [] => []
  | c :: rest => if startsIndex (c :: rest) then [] else c :: cleanedChunk rest

def indexSuffix (chunk : Text) : Text := chunk.drop (cleanedChunk chunk).length

def cleanAttrName (chunk : Text) : Text := '#' :: chunk.filter wordChar

/-- The chunks of a document path, with the `value` attribute they are read from. -/
def chunksOf (valPath : Text) : List Text := (valueName :: valPath.splitOn '.').filter (· ≠ [])

/-- A chunk as `incr`, `add`, `update` and `createPaths` render it. -/
def plainElement (chunk : Text) : PathElement := ⟨cleanAttrName chunk, []⟩

/-- A chunk as `remove` renders it. -/
def indexedElement (chunk : Text) : PathElement := ⟨cleanAttrName (cleanedChunk chunk), indexSuffix chunk⟩

def namesOf (chunks : List Text) : AttributeNames :=
  (chunks.map fun chunk => (cleanAttrName (cleanedChunk chunk), cleanedChunk chunk)).reverse

/-- The names table of a call: the names of all its paths, the expiry where the call sets it, and the
    `value` attribute. -/
def expressionNames (paths : List Text) (withTtl : Bool) : AttributeNames :=
  (cleanAttrName valueName, valueName) ::
    (if withTtl then [(cleanAttrName ttlName, ttlName)] else []) ++ namesOf (paths.flatMap chunksOf)

namespace SystemKVStore

def maxKeyBytes : ℕ := 1024

def maxValueBytes : ℕ := 399 * 1024

def assertKey (key : Text) : KvRun Unit := do
  refuseIf (key = []) (badRequest "kv: key is empty".toList)
  refuseIf ((key.map Char.utf8Size).sum > maxKeyBytes)
    (badRequest "kv: key exceeds 1024 byte limit".toList)

def assertPath (valPath : Text) : KvRun Unit :=
  forEach (fun chunk =>
    refuseIf (unsafeObjectKeys.contains (cleanedChunk chunk))
      (unsafeKeyError (cleanedChunk chunk) "path segment".toList)) (valPath.splitOn '.')

def assertPaths (paths : List Text) : KvRun Unit := forEach assertPath paths

def assertValue (env : KvEnv) (value : Json) : KvRun Unit := do
  refuseIf (env.jsonBytes value > maxValueBytes)
    (badRequest "kv: value exceeds 408576 byte limit".toList)
  match firstUnsafeKey value with
  | some key => throw (unsafeKeyError key "value key".toList)
  | none => pure ()

def privateEntry : KvError :=
  .http ⟨403, "kv: this entry is private to the app that wrote it".toList, "forbidden".toList⟩

def assertNotPrivate (crossApp : Bool) (key : Text) : KvRun Unit := do
  let table ← get
  refuseIf (crossApp && (table.get key).any isPrivate) privateEntry

def assertNonePrivate (crossApp : Bool) (keys : List Text) : KvRun Unit := do
  let table ← get
  refuseIf (crossApp && keys.any fun key => (table.get key).any isPrivate) privateEntry

def updateItem (env : KvEnv) (key : Text) (expression : UpdateExpression) (names : AttributeNames) :
    KvRun Attributes := do
  let table ← get
  match expression.run env.tooLarge names ((table.get key).getD []) with
  | .ok item =>
      set (table.put key item)
      pure item
  | .error error => throw (.validation error)

def answer (env : KvEnv) (crossApp : Bool) (item : Option Attributes) : Option Json :=
  answerOf ⟨true, crossApp⟩ (item.map readItem) env.now

def get (env : KvEnv) (crossApp : Bool) (keys : List Text) : KvRun (List (Option Json)) := do
  forEach assertKey keys
  let table ← getThe KvTable
  pure (keys.map fun key => answer env crossApp (table.get key))

def set (env : KvEnv) (crossApp : Bool) (key : Text) (value : Json) (expireAt : Option ℚ)
    (disableSharing : Bool) : KvRun Bool := do
  assertKey key
  assertValue env value
  assertNotPrivate crossApp key
  modify fun table : KvTable => table.put key (wholeItem value expireAt disableSharing)
  pure true

/-- An entry of a batch. -/
structure BatchItem where
  key : Text
  value : Json
  expireAt : Option ℚ

def lastByKey : List BatchItem → List BatchItem
  | [] => []
  | item :: rest => if rest.any (·.key = item.key) then lastByKey rest else item :: lastByKey rest

def batchPut (env : KvEnv) (crossApp : Bool) (items : List BatchItem) (disableSharing : Bool) :
    KvRun Bool := do
  forEach (fun item => do
    assertKey item.key
    assertValue env item.value) items
  let byKey := lastByKey items
  assertNonePrivate crossApp (byKey.map BatchItem.key)
  forEach (fun item => modify fun table : KvTable =>
    table.put item.key (wholeItem item.value item.expireAt disableSharing)) byKey
  pure true

def del (crossApp : Bool) (key : Text) : KvRun Bool := do
  assertNotPrivate crossApp key
  modify fun table : KvTable => table.erase key
  pure true

def take (env : KvEnv) (crossApp : Bool) (key : Text) : KvRun (Option Json) := do
  assertKey key
  assertNotPrivate crossApp key
  let table ← getThe KvTable
  modify fun table : KvTable => table.erase key
  pure (answer env false (table.get key))

/-- `#ttl` and `#value`, and what they stand for. -/
def ttlNames : AttributeNames :=
  [(cleanAttrName valueName, valueName), (cleanAttrName ttlName, ttlName)]

def rawExpireAt (env : KvEnv) (key : Text) (timestamp : ℚ) : KvRun Unit := do
  let _ ← updateItem env key
    (.set [([plainElement ttlName], .operand (.value (.number timestamp))),
      ([plainElement valueName], .operand (.ifNotExists [plainElement valueName] .null))]) ttlNames
  pure ()

def expireAt (env : KvEnv) (crossApp : Bool) (key : Text) (timestamp : ℚ) : KvRun Unit := do
  assertKey key
  assertNotPrivate crossApp key
  rawExpireAt env key timestamp

def expire (env : KvEnv) (crossApp : Bool) (key : Text) (ttl : ℚ) : KvRun Unit := do
  assertKey key
  assertNotPrivate crossApp key
  rawExpireAt env key (⌊env.now⌋ + ttl)

def nestPath : List Text → List (Text × Json) → List (Text × Json)
  | chunk :: next :: rest, fields =>
      let inner := match field chunk fields with
        | some (.map inner) => inner
        | _ => []
      setField chunk (.map (nestPath (next :: rest) inner)) fields
  | _, fields => fields

def nestedMapValue (pathList : List Text) : List (Text × Json) :=
  pathList.foldl (fun fields valPath => nestPath ((valPath.splitOn '.').filter (· ≠ [])) fields) []

def intermediatePaths (pathList : List Text) : List (List Text) :=
  ((pathList.flatMap fun valPath =>
    (List.range' 1 ((chunksOf valPath).length - 1)).map (chunksOf valPath).take).eraseDups).insertionSort
      fun one other => one.length ≤ other.length

mutual
/-- `objectsEqual`: the same primitive, or plain objects with the same keys and equal values. -/
def objectsEqual : Json → Json → Bool
  | .map fields, .map others => fields.length == others.length && fieldsEqual fields others
  | .null, .null => true
  | .bool b, .bool b' => b == b'
  | .number n, .number n' => n == n'
  | .text t, .text t' => t == t'
  | _, _ => false

def fieldsEqual : List (Text × Json) → List (Text × Json) → Bool
  | [], _ => true
  | entry :: rest, others =>
      (match field entry.1 others with
        | some other => objectsEqual entry.2 other
        | none => false) && fieldsEqual rest others
end

def createLayers (env : KvEnv) (key : Text) (nested : List (Text × Json)) :
    List (List Text) → KvRun Unit
  | [] => pure ()
  | chunks :: rest => do
      let path := chunks.map plainElement
      let isRootLayer := chunks = [valueName]
      let filling := if isRootLayer then .map nested else .map []
      let item ← updateItem env key (.set [(path, .operand (.ifNotExists path filling))])
        (namesOf chunks)
      if isRootLayer && (field valueName item).any (objectsEqual · (.map nested)) then pure ()
      else createLayers env key nested rest

def createPaths (env : KvEnv) (key : Text) (pathList : List Text) : KvRun Unit := do
  assertPaths pathList
  if pathList.all (· = []) then pure ()
  else createLayers env key (nestedMapValue pathList) (intermediatePaths pathList)

def plainPath (valPath : Text) : DocumentPath := (chunksOf valPath).map plainElement

/-- The `SET` assignment `incr` renders for one path. -/
def incrSetStatement (valPath : Text) (amount : ℚ) : DocumentPath × SetValue :=
  (plainPath valPath, .plus (.ifNotExists (plainPath valPath) (.number 0)) (.value (.number amount)))

def incrRequiresMap : KvError := badRequest "kv: incr requires pathAndAmountMap".toList

def incr (env : KvEnv) (crossApp : Bool) (key : Text) (pathAndAmountMap : List (Text × ℚ))
    (expireAt : Option ℚ) : KvRun (Option Json) := do
  assertKey key
  refuseIf pathAndAmountMap.isEmpty incrRequiresMap
  let paths := pathAndAmountMap.map Prod.fst
  assertPaths paths
  assertNotPrivate crossApp key
  let setStatements := pathAndAmountMap.map fun entry => incrSetStatement entry.1 entry.2
  let ttlStatement := expireAt.toList.map fun ttl =>
    ([plainElement ttlName], .operand (.ifNotExists [plainElement ttlName] (.number ttl)))
  let names := expressionNames paths expireAt.isSome
  let runUpdate := updateItem env key (.set (setStatements ++ ttlStatement)) names
  let item ← tryCatch runUpdate fun error =>
    match error with
    | .validation .oversized => throw error
    | .validation _ => do
        createPaths env key paths
        runUpdate
    | .http _ => throw error
  pure (field valueName item)

def decr (env : KvEnv) (crossApp : Bool) (key : Text) (pathAndAmountMap : List (Text × ℚ)) :
    KvRun (Option Json) :=
  incr env crossApp key (pathAndAmountMap.map fun entry => (entry.1, -entry.2)) none

/-- What `add` appends for a value: the elements of a list, or the value alone. -/
def appended : Json → List Json
  | .list items => items
  | value => [value]

/-- The `SET` assignment `add` renders for one path. -/
def addSetStatement (valPath : Text) (value : Json) : DocumentPath × SetValue :=
  (plainPath valPath,
    .listAppend (.ifNotExists (plainPath valPath) (.list [])) (.value (.list (appended value))))

def add (env : KvEnv) (crossApp : Bool) (key : Text) (pathAndValueMap : List (Text × Json)) :
    KvRun (Option Json) := do
  assertKey key
  refuseIf pathAndValueMap.isEmpty (badRequest "kv: add requires pathAndValueMap".toList)
  forEach (fun entry => assertValue env entry.2) pathAndValueMap
  let paths := pathAndValueMap.map Prod.fst
  assertPaths paths
  assertNotPrivate crossApp key
  createPaths env key paths
  let item ← updateItem env key
    (.set (pathAndValueMap.map fun entry => addSetStatement entry.1 entry.2)) (expressionNames paths false)
  pure (field valueName item)

/-- The `SET` assignment `update` renders for one path. -/
def updateSetStatement (valPath : Text) (value : Json) : DocumentPath × SetValue :=
  (plainPath valPath, .operand (.value value))

def update (env : KvEnv) (crossApp : Bool) (key : Text) (pathAndValueMap : List (Text × Json))
    (ttl : Option ℚ) : KvRun (Option Json) := do
  assertKey key
  refuseIf pathAndValueMap.isEmpty (badRequest "kv: update requires pathAndValueMap".toList)
  forEach (fun entry => assertValue env entry.2) pathAndValueMap
  let paths := pathAndValueMap.map Prod.fst
  assertPaths paths
  assertNotPrivate crossApp key
  createPaths env key paths
  let setStatements := pathAndValueMap.map fun entry => updateSetStatement entry.1 entry.2
  let ttlStatement := ttl.toList.map fun seconds =>
    ([plainElement ttlName], .operand (.value (.number (⌊env.now⌋ + seconds))))
  let item ← updateItem env key (.set (setStatements ++ ttlStatement))
    (expressionNames paths ttl.isSome)
  pure (field valueName item)

/-- The path `remove` renders. -/
def indexedPath (valPath : Text) : DocumentPath := (chunksOf valPath).map indexedElement

/-- `/document path|invalid updateexpression/i` on the message of a refusal. -/
def isPathError : UpdateError → Bool
  | .invalidPath | .invalidExpression | .oversized => true
  | .invalidName | .unusedName | .operandType => false

def remove (env : KvEnv) (crossApp : Bool) (key : Text) (paths : List Text) : KvRun (Option Json) := do
  assertKey key
  refuseIf paths.isEmpty (badRequest "kv: remove requires paths".toList)
  assertPaths paths
  assertNotPrivate crossApp key
  let removes : KvRun (Option Json) := do
    let item ← updateItem env key (.remove (paths.map indexedPath)) (expressionNames paths false)
    pure (field valueName item)
  tryCatch removes fun error =>
    match error with
    | .validation refusal =>
        -- The path did not exist: the current value.
        if isPathError refusal then do
          let table ← getThe KvTable
          pure (answer env crossApp (table.get key))
        else throw error
    | .http _ => throw error

end SystemKVStore

end Puter

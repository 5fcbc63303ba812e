-- The header inventory of the Codex file join (snapshots/codex_file_join.rs): the rollout files
-- of a roster, one header read at a time, in the order of their whole paths.
import Ottto.SortedVec
import Ottto.Tombstones

namespace ottto_service.header_inventory

open identity codex_usage_occurrence

/-! ## Paths, as strings -/

/-- `Path::extension`: what stands after the last dot, unless that dot opens the name. -/
def name_extension (name : List Char) : Option (List Char) :=
  match name.reverse.dropWhile (fun c => c ≠ '.') with
  | [] => none
  | [_] => none
  | _ => some (name.reverse.takeWhile (fun c => c ≠ '.')).reverse

def extension (path : String) : Option (List Char) := (file_name path).bind name_extension

/-- A reversed path without what stands after its last name. -/
def from_name : List Char → List Char
  | '/' :: path => from_name path
  | '.' :: '/' :: path => from_name path
  | path => path

/-- `Path::with_extension`: the path is cut right after the stem of its name. -/
def with_extension (path : String) (extension : String) : String :=
  match file_name path with
  | none => path
  | some name =>
    let upto_name := (from_name path.toList.reverse).reverse
    let upto_stem := upto_name.take (upto_name.length - (name.length - (file_stem name).length))
    String.ofList (upto_stem ++ if extension = "" then [] else '.' :: extension.toList)

/-- `Path::components`: the root and a leading dot count. -/
def components (path : String) : List (List Char) :=
  let parts := path.toList.splitOn '/'
  let named := parts.filter (fun part => part ≠ [] ∧ part ≠ ['.'])
  if path ≠ "" ∧ parts.head? = some [] then ['/'] :: named
  else if parts.head? = some ['.'] then ['.'] :: named
  else named

def starts_with (path root : String) : Bool := (components root).isPrefixOf (components path)

/-- `Path::parent`, on components. -/
def parent (path : List (List Char)) : Option (List (List Char)) :=
  if path = [] ∨ path = [['/']] then none else some path.dropLast

/-- The directory over the last `sessions` or `archived_sessions` of a path. -/
def member_home (root : List (List Char)) : List (List Char) :=
  match root.inits.reverse.find? (fun path =>
    path.getLast? = some "sessions".toList ∨ path.getLast? = some "archived_sessions".toList) with
  | some path => path.dropLast
  | none => root

def codex_archive_path (path : String) : Bool := (file_name path).any codex_archive_name

/-! ## The inventory -/

/-- The part of a directory census that completeness rests on. -/
structure DirectoryCensus where
  stable : Bool

structure CandidateFile where
  scan_root : String
  path : String

structure HeaderWitness where
  candidate : CandidateFile
  owner : String
  home : List (List Char)
  created_unix_ms : Option Int

structure HeaderInventory where
  roots : List String
  pending : List String
  headers : List HeaderWitness := []
  complete : Bool
  held_owners : Finset String
  refused : SortedMap String (Option String) := .empty

/-- An archive whose plaintext sibling is in the roster. -/
def shadowed_compressed_path (path : String) (paths : SortedMap String Unit) : Bool :=
  codex_archive_path path && paths.contains (with_extension path "")

/-- The owner that a file name states, and whether the file reverts to it. -/
def filename_owner (path : String) : Option (String × Bool) :=
  (codex_session_id_candidates_from_path path).findSome? (fun id =>
    if codex_identity_is_uuid_shaped id then some (resolve_codex_identity id, false)
    else
      let conversation := id.toList.takeWhile (fun c => c ≠ '_')
      let rollout := (id.toList.dropWhile (fun c => c ≠ '_')).drop 1
      if '_' ∈ id.toList ∧ codex_identity_is_uuid_shaped (String.ofList conversation) ∧
          codex_identity_is_uuid_shaped (String.ofList rollout) then
        some (resolve_codex_identity (String.ofList conversation), true)
      else none)

/-- The files of one home and owner: whether one reverts, and whether one is live. -/
structure FilenameGroup where
  keys : List String := []
  revert : Bool := false
  live : Bool := false

def filename_groups (paths : SortedMap String Unit) :
    SortedMap (List (List Char) ×ₗ String) FilenameGroup :=
  paths.keys.foldl (fun groups key =>
    if shadowed_compressed_path key paths then groups
    else
      match filename_owner key with
      | none => groups
      | some (owner, revert) =>
        let home := member_home ((parent (components key)).getD (components key))
        let group := (groups.get? (toLex (home, owner))).getD {}
        groups.insert (toLex (home, owner))
          { keys := group.keys ++ [key]
            revert := group.revert || revert
            live := group.live || !codex_archive_path key }) .empty

/-- The owners of the groups of several files that hold a revert and a live file. -/
def unsealed_owners (paths : SortedMap String Unit) : Finset String :=
  (((filename_groups paths).values.filter (fun group =>
    decide (1 < group.keys.length) && group.revert && group.live)).flatMap
      (fun group => group.keys.flatMap codex_session_id_candidates_from_path)).toFinset

/-! ## One read -/

/-- `std::io::ErrorKind`, as far as the inventory tells kinds apart. -/
inductive ErrorKind
  | NotFound
  | WouldBlock
  | Other
deriving DecidableEq

/-- An error, with its kind where it is one of input or output. -/
abbrev Error : Type := Option ErrorKind

structure HeaderFacts where
  owner : String
  created_unix_ms : Option Int

/-- What one step meets outside: the header as it is read, whether a candidate was prepared
before an error, and the metadata of the files. -/
structure HeaderRead where
  result : Except Error HeaderFacts
  prepared : Bool
  /-- `symlink_metadata` finds no such file. -/
  missing : String → Bool
  /-- `symlink_metadata` finds a regular file. -/
  regular : String → Bool
  path_witness : String → Option String

/-- The archive that took the place of a plaintext file. -/
def swapped_archive_sibling (error : Error) (path : String) (read : HeaderRead) : Option String :=
  let archive := with_extension path "jsonl.zst"
  if error = some .NotFound ∧ extension path = some "jsonl".toList ∧ read.missing path = true ∧
      read.regular archive = true then some archive
  else none

/-- A read that only lacked its funds is put back. -/
def requeue_refused (error : Error) (read : HeaderRead) : Bool :=
  read.prepared && decide (error = some .WouldBlock)

namespace HeaderInventory

def new (roots : List String) (paths : SortedMap String Unit)
    (directories : Option DirectoryCensus) : HeaderInventory where
  roots
  pending := paths.keys.filter (fun path => !shadowed_compressed_path path paths)
  complete := directories.any (fun census => census.stable)
  held_owners := unsealed_owners paths

/-- The headers by their paths. -/
def by_path (self : HeaderInventory) : List (String × String) :=
  self.headers.map (fun header => (header.candidate.path, header.owner))

def owner_for_path (self : HeaderInventory) (path : String) : Option String :=
  match SortedVec.binary_search self.by_path path with
  | .ok index => some (self.by_path.get index).2
  | .error _ => none

/-- The deepest root over a path, of equally deep ones the last. -/
def scan_root (self : HeaderInventory) (path : String) : Option String :=
  (self.roots.filter (fun root => starts_with path root)).foldl
    (fun best root =>
      if best.any (fun best => decide ((components root).length < (components best).length)) then best
      else some root) none

/-- What a step makes of the path it takes. -/
inductive Taken
  | held
  | unscoped
  | header (header : HeaderWitness)
  | unfunded
  | swapped (archive : String)
  | refused

def take (self : HeaderInventory) (path : String) (read : HeaderRead) : Taken :=
  if (codex_session_id_candidates_from_path path).any (fun owner => decide (owner ∈ self.held_owners)) then
    .held
  else
    match self.scan_root path with
    | none => .unscoped
    | some scan_root =>
      match read.result with
      | .ok facts =>
        .header
          { candidate := { scan_root, path }
            owner := facts.owner
            home := member_home (components scan_root)
            created_unix_ms := facts.created_unix_ms }
      | .error error =>
        if requeue_refused error read then .unfunded
        else
          match swapped_archive_sibling error path read with
          | some archive => .swapped archive
          | none => .refused

/-- One path is taken from the queue. The flag tells that none was left. -/
def step_selected (self : HeaderInventory) (read : HeaderRead) : HeaderInventory × Bool :=
  match self.pending with
  | [] => (self, true)
  | path :: pending =>
    let rest := { self with pending }
    match self.take path read with
    | .held => (rest, false)
    | .header header => ({ rest with headers := self.headers ++ [header] }, false)
    | .unfunded =>
      let owners := codex_session_id_candidates_from_path path
      ({ rest with
          complete := self.complete && (codex_archive_path path && !owners.isEmpty)
          held_owners := self.held_owners ∪ owners.toFinset }, false)
    | .swapped archive =>
      match SortedVec.binary_search (pending.map (fun path => (path, ()))) archive with
      | .ok _ => (rest, false)
      | .error index => ({ rest with pending := pending.insertIdx index archive }, false)
    | .unscoped | .refused =>
      ({ rest with
          complete := false
          refused := self.refused.insert path (read.path_witness path) }, false)

end HeaderInventory

end ottto_service.header_inventory

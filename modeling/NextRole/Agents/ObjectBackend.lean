import Mathlib
import NextRole.Agents.ObjectStorage
import NextRole.Lib.Dict

/-!
# Files over the object store

`career_agent/object_backend.py`: the files of one area, as the agent's file tools see them.  Reading,
writing and editing map a path to the key of an object; listing and deleting compare the path with
the paths that the keys of the area are listed as.  The calls of the object store succeed; times of
modification are left out.

## Main definitions

* `Objects` — what the object store holds.
* `ObjectBackend` — the backend of an area, with what it uses of the framework.
* `ls`, `read`, `write`, `delete`, `edit`, `uploadFiles`, `downloadFiles` — its operations.
* `FileCall`, `run` — calls that change files, one after the other.
-/

namespace NextRole

/-- The objects under their keys. -/
abbrev Objects := Dict String ByteArray

/-- `delete_key`, with whether the object existed. -/
def deleteKey (store : Objects) (key : String) : Bool × Objects :=
  if (store.get? key).isNone then (false, store) else (true, store.erase key)

/-! ### Texts -/

/-- `str.rstrip`, of one character. -/
def rstripChar (c : Char) (s : String) : String := String.ofList (s.toList.rdropWhile fun a => a = c)

/-- `str.endswith`. -/
def endsWith (s suffix : String) : Bool := suffix.toList.isSuffixOf s.toList

/-- `s[len(start):]`. -/
def dropText (n : ℕ) (s : String) : String := String.ofList (s.toList.drop n)

/-- A digit of base 64. -/
def b64Digit (n : ℕ) : Char :=
  "ABCDEFGHIJKLMNOPQRSTUVWXYZabcdefghijklmnopqrstuvwxyz0123456789+/".toList.getD n '='

/-- `base64.standard_b64encode`, of three bytes at a time. -/
def standardB64encode : List UInt8 → List Char
  | [] => []
  | [a] => [b64Digit (a.toNat / 4), b64Digit (a.toNat % 4 * 16), '=', '=']
  | [a, b] =>
    [b64Digit (a.toNat / 4), b64Digit (a.toNat % 4 * 16 + b.toNat / 16),
      b64Digit (b.toNat % 16 * 4), '=']
  | a :: b :: c :: bytes =>
    b64Digit (a.toNat / 4) :: b64Digit (a.toNat % 4 * 16 + b.toNat / 16) ::
      b64Digit (b.toNat % 16 * 4 + c.toNat / 64) :: b64Digit (c.toNat % 64) ::
        standardB64encode bytes

/-! ### Results -/

/-- The errors that the results carry. -/
inductive ObjectError
  /-- Of `write`, for a path without key. -/
  | invalid (path : String)
  /-- Of `read`. -/
  | notFound (path : String)
  /-- Of `delete` and `edit`. -/
  | noFile (path : String)
  /-- Of `edit`, for what is not text. -/
  | binary (path : String)
  /-- What the framework says about a window of lines or a replacement. -/
  | framework (text : String)
  deriving Repr, DecidableEq

/-- The texts of the errors, with what `repr` makes of a path. -/
def ObjectError.text (repr : String → String) : ObjectError → String
  | .invalid path => "Invalid path " ++ repr path
  | .notFound path => "File '" ++ path ++ "' not found"
  | .noFile path => "Error: File '" ++ path ++ "' not found"
  | .binary path => "Error: Cannot edit binary file '" ++ path ++ "'"
  | .framework text => text

/-- `FileData`, by its encoding. -/
inductive FileData
  | utf8 (content : String)
  | base64 (content : String)
  deriving Repr, DecidableEq

/-- An entry of a listing. -/
structure FileInfo where
  path : String
  isDir : Bool
  size : ℕ
  deriving Repr, DecidableEq

/-- The answer to one file of `upload_files`. -/
structure FileUploadResponse where
  path : String
  error : Option String
  deriving Repr, DecidableEq

/-- The answer to one file of `download_files`. -/
structure FileDownloadResponse where
  path : String
  content : Option ByteArray
  error : Option String
  deriving DecidableEq

/-- What a listing of the object store says about an object, with `vpath`. -/
structure ObjectMeta where
  path : String
  size : ℕ
  vpath : String
  deriving Repr, DecidableEq

/-! ### The backend -/

/-- `ObjectStoreBackend`: a registered area, for the identity of the run. -/
structure ObjectBackend where
  area : String
  registered : (areaRoots.lookup area).isSome = true
  current : Option String
  /-- `_get_file_type` is `"text"`. -/
  isText : String → Bool
  /-- `slice_read_response`. -/
  sliceRead : String → ℤ → ℤ → Except String String
  /-- `perform_string_replacement`, with the new text and the number of replacements. -/
  replaceString : String → String → String → Bool → Except String (String × ℕ)

namespace ObjectBackend

variable (b : ObjectBackend)

/-- `_key`. -/
def key (path : String) : Option String := keyForArea b.current b.area path none

/-- `area_key_prefix` of the area. -/
def base : String := (areaKeyPrefix b.current b.area none).getD ""

/-- `_area_files`. -/
def areaFiles (store : Objects) : List ObjectMeta :=
  (store.entries.filter fun e => startsWith e.1 (b.base ++ "/")).map fun e =>
    ⟨e.1, e.2.size, "/" ++ dropText (b.base.length + 1) e.1⟩

/-- The directory that `ls` looks for. -/
def normDir (path : String) : String := if endsWith path "/" then path else path ++ "/"

/-- The files of a directory, in `ls`. -/
def dirFiles (dir : String) (metas : List ObjectMeta) : List FileInfo :=
  (metas.filter fun m => startsWith m.vpath dir &&
    !(dropText dir.length m.vpath).toList.contains '/').map fun m => ⟨m.vpath, false, m.size⟩

/-- The directories of a directory, in `ls`. -/
def dirSubdirs (dir : String) (metas : List ObjectMeta) : List String :=
  ((metas.filter fun m => startsWith m.vpath dir &&
    (dropText dir.length m.vpath).toList.contains '/').map fun m =>
      dir ++ (partitionAt '/' (dropText dir.length m.vpath)).1 ++ "/").dedup

/-- `ls`. -/
def ls (store : Objects) (path : String) : List FileInfo :=
  let dir := normDir path
  let subdirs := (dirSubdirs dir (b.areaFiles store)).mergeSort (fun x y => x ≤ y)
  (dirFiles dir (b.areaFiles store) ++ subdirs.map fun d => FileInfo.mk d true 0).mergeSort
    fun x y => x.path ≤ y.path

/-- The text of a file, if its name and its bytes are those of a text. -/
def textOf (path : String) (data : ByteArray) : Option String :=
  if b.isText path then String.fromUTF8? data else none

/-- What `read` makes of the bytes of a file. -/
def render (path : String) (data : ByteArray) (offset limit : ℤ) : Except ObjectError FileData :=
  match b.textOf path data with
  | none => .ok (.base64 (String.ofList (standardB64encode data.toList)))
  | some text =>
    match b.sliceRead text offset limit with
    | .error e => .error (.framework e)
    | .ok sliced => .ok (.utf8 sliced)

/-- `read`. -/
def read (store : Objects) (path : String) (offset limit : ℤ) : Except ObjectError FileData :=
  match (b.key path).bind store.get? with
  | none => .error (.notFound path)
  | some data => b.render path data offset limit

/-- `write`, with the path of its result. -/
def write (store : Objects) (path content : String) : Except ObjectError String × Objects :=
  match b.key path with
  | none => (.error (.invalid path), store)
  | some key => (.ok path, store.set key content.toUTF8)

/-- The keys that `delete` deletes. -/
def doomed (store : Objects) (path : String) : List String :=
  let base := rstripChar '/' path
  ((b.areaFiles store).filter fun m => m.vpath = base || startsWith m.vpath (base ++ "/")).map
    ObjectMeta.path

/-- `delete`, with the path of its result. -/
def delete (store : Objects) (path : String) : Except ObjectError String × Objects :=
  if b.doomed store path = [] then (.error (.noFile path), store)
  else (.ok path, (b.doomed store path).foldl (fun store key => (deleteKey store key).2) store)

/-- `edit`, with the number of replacements of its result. -/
def edit (store : Objects) (path old new : String) (replaceAll : Bool) :
    Except ObjectError ℕ × Objects :=
  match b.key path with
  | none => (.error (.noFile path), store)
  | some key =>
    match store.get? key with
    | none => (.error (.noFile path), store)
    | some data =>
      match b.textOf path data with
      | none => (.error (.binary path), store)
      | some content =>
        match b.replaceString content old new replaceAll with
        | .error e => (.error (.framework e), store)
        | .ok (newContent, occurrences) => (.ok occurrences, store.set key newContent.toUTF8)

/-- One file of `upload_files`. -/
def upload (store : Objects) (path : String) (content : ByteArray) :
    FileUploadResponse × Objects :=
  match b.key path with
  | none => (⟨path, some "invalid_path"⟩, store)
  | some key => (⟨path, none⟩, store.set key content)

/-- `upload_files`. -/
def uploadFiles (store : Objects) :
    List (String × ByteArray) → List FileUploadResponse × Objects
  | [] => ([], store)
  | (path, content) :: files =>
    let response := b.upload store path content
    let rest := uploadFiles response.2 files
    (response.1 :: rest.1, rest.2)

/-- `download_files`. -/
def downloadFiles (store : Objects) (paths : List String) : List FileDownloadResponse :=
  paths.map fun path =>
    match b.key path with
    | none => ⟨path, none, some "invalid_path"⟩
    | some key =>
      match store.get? key with
      | none => ⟨path, none, some "file_not_found"⟩
      | some data => ⟨path, some data, none⟩

end ObjectBackend

/-! ### Runs -/

/-- A call that changes files. -/
inductive FileCall
  | write (path content : String)
  | upload (files : List (String × ByteArray))
  | edit (path old new : String) (replaceAll : Bool)
  | delete (path : String)

namespace ObjectBackend

variable (b : ObjectBackend)

/-- The objects after a call. -/
def step (store : Objects) : FileCall → Objects
  | .write path content => (b.write store path content).2
  | .upload files => (b.uploadFiles store files).2
  | .edit path old new replaceAll => (b.edit store path old new replaceAll).2
  | .delete path => (b.delete store path).2

/-- The objects after calls. -/
def run (start : Objects) (calls : List FileCall) : Objects := calls.foldl b.step start

end ObjectBackend

end NextRole

import CloudHelp.FileTree
import CloudHelp.ManifestTypes
import CloudHelp.Unicode

/-!
# Key files

`internal/signingkey/key.go` on Linux: `GenerateFiles` with `ensureParent` and `writeExclusive`,
and the two loaders. Each step on a file that can fail has its outcome as an input, so any of them
may fail in any combination; the removals of the clean-up do not. `filepath.Clean`, `filepath.Dir`
and the number of links the kernel follows are arbitrary.
-/

namespace CloudHelp.SigningKey

structure FileData where
  content : Bytes
  mode : ℕ
  deriving DecidableEq, Repr

abbrev Files := FileTree Bytes FileData

def component (s : Bytes) : FileTree.Component Bytes :=
  if s = [] ∨ s = [46] then .here else if s = [46, 46] then .up else .name s

def parsePath (path : Bytes) : FileTree.Path Bytes where
  absolute := path.head? = some 47
  components := (path.splitOn 47).map component

/-- What surrounds the calls. `keep` is the mode bits the umask leaves; `mkdirAll` answers with
the tree it leaves and its error, and it only makes directories. -/
structure Environment where
  links : ℕ
  keep : ℕ
  clean : Bytes → Bytes
  dir : Bytes → Bytes
  mkdirAll : Files → Bytes → ℕ → Files × Option Error
  mkdirAll_grows : ∀ t path mode, FileTree.Grows t (mkdirAll t path mode).1
  mkdirAll_files : ∀ t path mode, FileTree.SameFiles t (mkdirAll t path mode).1

variable (env : Environment)

def Environment.slot (t : Files) (path : Bytes) : Option (ℕ × Bytes) :=
  t.slot env.links (parsePath path)

def Environment.resolve (t : Files) (path : Bytes) : Option ℕ :=
  t.resolve env.links (parsePath path)

/-! ## Writing -/

/-- How the steps of `writeExclusive` fail, where they do; `begun` is what a failed write leaves. -/
structure Faults where
  create : Option Error
  write : Option Error
  begun : Bytes
  sync : Option Error
  close : Option Error

/-- `os.Remove` of a name that is not a directory's. -/
def remove (t : Files) (path : Bytes) : Files :=
  match env.slot t path with
  | none => t
  | some (d, n) =>
      match t.entries d n with
      | none => t
      | some i => if t.isDirectory i then t else t.unlink d n

def writeExclusive (t : Files) (path contents : Bytes) (mode : ℕ) (faults : Faults) :
    Files × Except Error Unit :=
  match faults.create, env.slot t path with
  | some e, _ => (t, .error e)
  | none, none => (t, .error (.library "cannot create"))
  | none, some (d, n) =>
      if (t.entries d n).isSome then (t, .error (.library "file exists"))
      else
        let created := t.create d n ⟨[], mode &&& env.keep⟩
        match faults.write with
        | some e =>
            (remove env (created.setData t.next ⟨faults.begun, mode &&& env.keep⟩) path, .error e)
        | none =>
            let written := created.setData t.next ⟨contents, mode &&& env.keep⟩
            match faults.sync, faults.close with
            | some e, _ => (remove env written path, .error e)
            | none, some e => (remove env written path, .error e)
            | none, none => (written, .ok ())

/-- `ensureParent`; `stat` is the error of `os.Stat` where it fails by itself. -/
def ensureParent (t : Files) (path : Bytes) (mode : ℕ) (stat : Option Error) :
    Files × Except Error Unit :=
  let made := env.mkdirAll t (env.dir path) mode
  match made.2, stat with
  | some e, _ => (made.1, .error (.wrap "create key directory: %w" [] e))
  | none, some e => (made.1, .error (.wrap "stat key directory: %w" [] e))
  | none, none =>
      match env.resolve made.1 (env.dir path) with
      | none => (made.1, .error (.wrap "stat key directory: %w" [] .notExist))
      | some i =>
          match made.1.nodes i with
          | some (.directory mode) =>
              if mode &&& 0o022 ≠ 0 then
                (made.1, .error (.new "key directory must not be writable by group or others"))
              else (made.1, .ok ())
          | _ => (made.1, .error (.new "key parent must be a directory"))

/-- The steps of `GenerateFiles` outside the code: the random seed and the faults. -/
structure Outcomes where
  seed : Except Error (Vector UInt8 32)
  privateStat : Option Error
  publicStat : Option Error
  privateFaults : Faults
  publicFaults : Faults

def privateKey (rt : Runtime) (seed : Vector UInt8 32) : Bytes :=
  (rt.newKeyFromSeed seed.toList).toList

def publicKey (rt : Runtime) (seed : Vector UInt8 32) : Bytes := (privateKey rt seed).drop 32

def keyText (key : Bytes) : Bytes := Base64Url.encodeToString key ++ [10]

/-- `GenerateFiles` after the directories. -/
def writeKeys (rt : Runtime) (t : Files) (privatePath publicPath : Bytes) (seed : Vector UInt8 32)
    (outcomes : Outcomes) : Files × Except Error Bytes :=
  match writeExclusive env t privatePath (keyText (privateKey rt seed)) 0o600
      outcomes.privateFaults with
  | (t, .error e) => (t, .error (.wrap "write private key: %w" [] e))
  | (t, .ok ()) =>
      match writeExclusive env t publicPath (keyText (publicKey rt seed)) 0o644
          outcomes.publicFaults with
      | (t, .error e) => (remove env t privatePath, .error (.wrap "write public key: %w" [] e))
      | (t, .ok ()) => (t, .ok (publicKey rt seed))

def generateFiles (rt : Runtime) (t : Files) (privatePath publicPath : Bytes)
    (outcomes : Outcomes) : Files × Except Error Bytes :=
  if privatePath = [] ∨ publicPath = [] then
    (t, .error (.new "private and public output paths are required"))
  else if env.clean privatePath = env.clean publicPath then
    (t, .error (.new "private and public output paths must differ"))
  else match outcomes.seed with
    | .error e => (t, .error (.wrap "generate Ed25519 key: %w" [] e))
    | .ok seed =>
        match ensureParent env t privatePath 0o700 outcomes.privateStat with
        | (t, .error e) => (t, .error e)
        | (t, .ok ()) =>
            match ensureParent env t publicPath 0o755 outcomes.publicStat with
            | (t, .error e) => (t, .error e)
            | (t, .ok ()) => writeKeys env rt t privatePath publicPath seed outcomes

/-! ## Loading -/

/-- `os.Open` and `Stat`: the file a path leads to, or the error of the loader. -/
def openRegular (t : Files) (path : Bytes) (openFormat notRegular : String) :
    Except Error FileData :=
  match env.resolve t path with
  | none => .error (.wrap openFormat [] .notExist)
  | some i =>
      match t.nodes i with
      | some (.file data) =>
          if data.mode &&& 0o400 = 0 then
            .error (.wrap openFormat [] (.library "permission denied"))
          else .ok data
      | _ => .error (.new notRegular)

def loadPrivate (rt : Runtime) (t : Files) (path : Bytes) : Except Error Bytes :=
  match openRegular env t path "open signing key: %w" "signing key must be a regular file" with
  | .error e => .error e
  | .ok data =>
      if data.mode &&& 0o077 ≠ 0 then
        .error (.new "signing key permissions must not allow group or other access")
      else if data.content.length = 0 ∨ data.content.length > 256 then
        .error (.new "signing key size is invalid")
      else match Base64Url.decodeString (Utf8.trimSpace data.content) with
        | none => .error (.wrap "decode signing key: %w" [] (.library "illegal base64 data"))
        | some raw =>
            if raw.length = 32 then .ok (rt.newKeyFromSeed raw).toList
            else if raw.length = 64 then
              if (rt.newKeyFromSeed (raw.take 32)).toList ≠ raw then
                .error (.new "signing key public half does not match its seed")
              else .ok raw
            else .error (.errorf
              "signing key has %d bytes, expected %d-byte seed or %d-byte private key"
              [.num raw.length, .num 32, .num 64])

def loadPublic (t : Files) (path : Bytes) : Except Error Bytes :=
  match openRegular env t path "open public key: %w" "public key must be a regular file" with
  | .error e => .error e
  | .ok data =>
      if data.content.length = 0 ∨ data.content.length > 128 then
        .error (.new "public key size is invalid")
      else match Base64Url.decodeString (Utf8.trimSpace data.content) with
        | none => .error (.new "public key encoding is invalid")
        | some raw =>
            if raw.length ≠ 32 then .error (.new "public key encoding is invalid") else .ok raw

end CloudHelp.SigningKey

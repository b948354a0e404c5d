import KernelTrace.Tools.Basic

/-!
# Tools for files
-/

namespace KernelTrace.Tool

variable {ι : Type}

/-- Writes what a descriptor gives as it comes, `fuel` reads at most: what went wrong with what. -/
def sayAll (file : Octets) (fd : Fd) : (fuel : Nat) → Running ι (Option (Octets × IoError))
  | 0 => return none
  | fuel + 1 => do
    match ← Running.request (.read fd Running.chunk) with
    | .error e => return some (file, e)
    | .ok (some []) => return none
    | .ok (some b) =>
      match ← Running.request (.write 1 b) with
      | .ok () => sayAll file fd fuel
      | .error e => return some ("write error".toList, e)
    | .ok none =>
      Running.request (.await ⟨[fd], false, none⟩)
      sayAll file fd fuel

def cat : Tool ι := fun words =>
  let files := (options words).2
  forEach (if files = [] then [['-']] else files) fun file => do
    let fault ← if file = ['-'] then sayAll file 0 Running.maxReads else do
      match ← Running.request (.openFile (pathOf file) .read) with
      | .error e => pure (some (file, e))
      | .ok fd =>
        let fault ← sayAll file fd Running.maxReads
        Running.request (.close fd)
        pure fault
    match fault with
    | none => return true
    | some (what, e) =>
      complain "cat" (what ++ ": ".toList ++ reason e)
      return false

def maxDepth : Nat := 2048

/-- Removes something and, if it is `deep`, what is in it. -/
def removePath (deep : Bool) : (depth : Nat) → Octets → Running ι (Option IoError)
  | 0, _ => return some (.os .nameTooLong)
  | depth + 1, w => do
    match ← Running.request (.file (.linkStatus (pathOf w))) with
    | .error e => return some e
    | .ok ⟨_, .directory⟩ =>
      if !deep then return some (.os .isDirectory)
      else
        match ← Running.request (.file (.list (pathOf w))) with
        | .error e => return some e
        | .ok entries =>
          let mut fault : Option IoError := none
          for (name, _) in entries do
            match ← removePath deep depth (w ++ '/' :: Octets.ofBytes name) with
            | some e => fault := some e
            | none => pure ()
          match fault with
          | some e => return some e
          | none =>
            match ← Running.request (.file (.removeDir (pathOf w))) with
            | .ok () => return none
            | .error e => return some e
    | .ok _ =>
      match ← Running.request (.edit (.unlink (pathOf w))) with
      | .ok () => return none
      | .error e => return some e

def rm : Tool ι := fun words => do
  let (flags, files) := options words
  let force := flags.contains 'f'
  if force ∧ files = [] then return 0
  else forSome "rm" files fun file => do
    match ← removePath (flags.contains 'r' || flags.contains 'R') maxDepth file with
    | none => return true
    | some e =>
      if force && e = .os .notFound then return true
      else
        complainOf "rm" "cannot remove " file e
        return false

/-- Makes directories, with those on the way to them if that is asked for. -/
def mkdir : Tool ι := fun words => do
  let (flags, dirs) := options words
  let make (w : Octets) : Running ι (Except IoError Unit) :=
    Running.request (.file (.makeDir (pathOf w)))
  forSome "mkdir" dirs fun dir => do
    if flags.contains 'p' then
      let names := (KernelTrace.pieces '/' dir).filter (· ≠ [])
      let lead : Octets := if dir.head? = some '/' then ['/'] else []
      for n in List.range names.length do
        let _ ← make (lead ++ ['/'].intercalate (names.take (n + 1)))
      match ← Running.request (.file (.status (pathOf dir))) with
      | .ok ⟨_, .directory⟩ => return true
      | .ok _ =>
        complainOf "mkdir" "cannot create directory " dir (.os .exists)
        return false
      | .error e =>
        complainOf "mkdir" "cannot create directory " dir e
        return false
    else
      match ← make dir with
      | .ok () => return true
      | .error e =>
        complainOf "mkdir" "cannot create directory " dir e
        return false

def rmdir : Tool ι := fun words => forSome "rmdir" (options words).2 fun dir => do
  match ← Running.request (.file (.removeDir (pathOf dir))) with
  | .ok () => return true
  | .error e =>
    complainOf "rmdir" "failed to remove " dir e
    return false

def touch : Tool ι := fun words => forEach (options words).2 fun file => do
  match ← Running.request (.file (.status (pathOf file))) with
  | .ok _ => return true
  | .error _ =>
    match ← Running.request (.openFile (pathOf file) .append) with
    | .ok fd =>
      Running.request (.close fd)
      return true
    | .error e =>
      complainOf "touch" "cannot touch " file e
      return false

def permissionBits (letters : List Char) : Nat :=
  (if letters.contains 'r' then 4 else 0) + (if letters.contains 'w' then 2 else 0)
    + (if letters.contains 'x' || letters.contains 'X' then 1 else 0)

/-- The permission bits of a mode that is written as a change, such as `u+x`. -/
def changedMode? (old : Nat) (change : Octets) : Option Nat :=
  let who := change.takeWhile fun c => "ugoa".toList.contains c
  let who := if who = [] || who.contains 'a' then "ugo".toList else who
  let rest := change.dropWhile fun c => "ugoa".toList.contains c
  let spread (bits : Nat) : Nat :=
    (if who.contains 'u' then bits * 64 else 0) + (if who.contains 'g' then bits * 8 else 0)
      + (if who.contains 'o' then bits else 0)
  match rest with
  | o :: letters =>
    let bits := spread (permissionBits letters)
    if !letters.all fun c => "rwxX".toList.contains c then none
    else match o with
      | '+' => some (old ||| bits)
      | '-' => some (old &&& (0o7777 ^^^ bits))
      | '=' => some ((old &&& (0o7777 ^^^ spread 7)) ||| bits)
      | _ => none
  | [] => none

def mode? (old : Nat) (w : Octets) : Option Nat :=
  if w ≠ [] ∧ w.all fun c => '0' ≤ c && c ≤ '7' then
    some (w.foldl (fun n c => n * 8 + (c.toNat - '0'.toNat)) 0)
  else (KernelTrace.pieces ',' w).foldlM changedMode? old

def chmod : Tool ι := fun words => do
  let isFlag (w : Octets) : Bool := w = "-R".toList || w = "-f".toList || w = "-v".toList
  match words.dropWhile isFlag with
  | [] =>
    complain "chmod" "missing operand".toList
    return 1
  | m :: files => forEach files fun file => do
    match ← Running.request (.file (.status (pathOf file))) with
    | .error e =>
      complainOf "chmod" "cannot access " file e
      return false
    | .ok s =>
      match mode? s.entry.mode m with
      | none =>
        complain "chmod" ("invalid mode: '".toList ++ m ++ ['\x27'])
        hint "chmod"
        return false
      | some mode =>
        let _ ← Running.request (.edit (.setMode (pathOf file) mode))
        return true

/-- The path of something in a directory, if a word is one, and the word otherwise. -/
def inDirectory (source target : Octets) : Running ι Octets := do
  match ← Running.request (.file (.status (pathOf target))) with
  | .ok ⟨_, .directory⟩ =>
    let name := ((pathOf source).fileName?).getD []
    return target ++ '/' :: Octets.ofBytes name
  | _ => return target

/-- Does something with every word but the last one and a path made of the last one. -/
def forTargets (who : String) (words : List Octets)
    (f : Octets → Octets → Running ι (Option (String × Octets × IoError))) : Running ι Nat := do
  match words.getLast? with
  | none =>
    complain who "missing file operand".toList
    return 1
  | some target => forEach words.dropLast fun source => do
    match ← f source (← inDirectory source target) with
    | none => return true
    | some (what, file, e) =>
      complainOf who what file e
      return false

def mv : Tool ι := fun words => forTargets "mv" (options words).2 fun source target => do
  match ← Running.request (.edit (.rename (pathOf source) (pathOf target))) with
  | .ok () => return none
  | .error e => return some ("cannot stat ", source, e)

def cp : Tool ι := fun words => forTargets "cp" (options words).2 fun source target => do
  match ← Running.request (.file (.status (pathOf source))), ← contentOf source with
  | .ok s, .ok content =>
    match ← Running.request (.openFile (pathOf target) .write) with
    | .ok fd =>
      let _ ← Running.request (.write fd (Octets.toBytes content))
      Running.request (.close fd)
      let _ ← Running.request (.edit (.setMode (pathOf target) s.entry.mode))
      return none
    | .error e => return some ("cannot create regular file ", target, e)
  | .error e, _ | _, .error e => return some ("cannot stat ", source, e)

def ln : Tool ι := fun words => do
  let (flags, files) := options words
  forTargets "ln" files fun source target => do
    if flags.contains 'f' then
      let _ ← Running.request (.edit (.unlink (pathOf target)))
    match ← Running.request (.edit (.makeLink (pathOf target) (pathOf source))) with
    | .ok () => return none
    | .error e => return some ("failed to create symbolic link ", target, e)

def readlink : Tool ι := fun words => forEach (options words).2 fun file => do
  match ← Running.request (.file (.linkStatus (pathOf file))) with
  | .ok ⟨_, .link target⟩ =>
    say (Octets.ofBytes target.bytes ++ ['\n'])
    return true
  | _ => return false

/-- Lists directories; two if there is nothing to list somewhere. -/
def ls : Tool ι := fun words => do
  let (flags, files) := options words
  let all := flags.contains 'a' || flags.contains 'A'
  let shown (name : Octets) : Bool := all || name.head? ≠ some '.'
  let status ← forEach (if files = [] then [['.']] else files) fun file => do
    match ← Running.request (.file (.status (pathOf file))) with
    | .error e =>
      complainOf "ls" "cannot access " file e
      return false
    | .ok ⟨_, .directory⟩ =>
      if flags.contains 'd' then say (file ++ ['\n'])
      else
        if files.length > 1 then say (file ++ ":\n".toList)
        match ← Running.request (.file (.list (pathOf file))) with
        | .ok entries =>
          say (ofLines ((entries.map fun e => Octets.ofBytes e.1).filter shown))
        | .error _ => pure ()
      return true
    | .ok _ =>
      say (file ++ ['\n'])
      return true
  return if status = 0 then 0 else 2

end KernelTrace.Tool

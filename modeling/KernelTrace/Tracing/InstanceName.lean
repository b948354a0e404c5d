/-!
# Names of trace instances

An instance is a directory below the tracing root, so its name has to be one path component, and
the kernel wants it short. `InstanceName.parse` checks that, and a valid name is what every
operation that creates or binds an instance takes. Names that start with `kube_` mark instances of
this library's making; only those are ever removed unasked.
-/

namespace KernelTrace

/-- What is wrong with a text as an instance name. -/
inductive InstanceNameFault where
  | empty
  | tooLong
  | relative
  | character
  deriving DecidableEq, Repr

def InstanceNameFault.message : InstanceNameFault → String
  | empty => "must not be empty"
  | tooLong => "must be at most 16 bytes"
  | relative => "must not be a relative path component"
  | character => "may only contain ascii letters, digits, '_', '-' and '.'"

/-- Whether a character may occur in an instance name. -/
def isInstanceNameChar (c : Char) : Bool :=
  c.isAlphanum || c = '_' || c = '-' || c = '.'

def maxInstanceName : Nat := 16

/-- The first fault of a text as an instance name, in the order in which they are looked for. -/
def instanceNameFault? (s : String) : Option InstanceNameFault :=
  if s = "" then some .empty
  else if maxInstanceName < s.utf8ByteSize then some .tooLong
  else if s = "." ∨ s = ".." then some .relative
  else if s.toList.all isInstanceNameChar then none
  else some .character

/-- The name of a trace instance. -/
structure InstanceName where
  text : String
  valid : instanceNameFault? text = none
  deriving DecidableEq

namespace InstanceName

/-- The name that a text is, or what is wrong with it. -/
def parse (s : String) : Except InstanceNameFault InstanceName :=
  match h : instanceNameFault? s with
  | none => .ok ⟨s, h⟩
  | some fault => .error fault

/-- What names of this library's making start with. -/
def ownedMark : String := "kube_"

/-- Whether a text is marked as a name of this library's making. -/
def isOwnedText (s : String) : Bool := ownedMark.toList.isPrefixOf s.toList

/-- Whether the name is of this library's making. -/
def isOwned (n : InstanceName) : Bool := isOwnedText n.text

theorem text_inj {m n : InstanceName} (h : m.text = n.text) : m = n := by
  cases m
  cases n
  cases h
  rfl

theorem parse_text (n : InstanceName) : parse n.text = .ok n := by
  unfold parse
  split
  · rfl
  · next fault h => rw [n.valid] at h; cases h

end InstanceName

abbrev Draw := BitVec 128

namespace Draw

def hexDigit (v : Nat) : Char :=
  if v < 10 then Char.ofNat ('0'.toNat + v) else Char.ofNat ('a'.toNat + (v - 10))

/-- The first `count` of the 32 hexadecimal digits of the number. -/
def hexDigits (d : Draw) (count : Nat) : List Char :=
  (List.range count).map fun i => hexDigit ((d.toNat >>> (124 - 4 * i)) % 16)

def digits : List Char := "0123456789abcdef".toList

theorem hexDigit_mem {v : Nat} (h : v < 16) : hexDigit v ∈ digits := by
  match v with
  | 0 | 1 | 2 | 3 | 4 | 5 | 6 | 7 | 8 | 9 | 10 | 11 | 12 | 13 | 14 | 15 => decide
  | n + 16 => omega

theorem mem_digits_of_mem_hexDigits {d : Draw} {n : Nat} {c : Char} (h : c ∈ d.hexDigits n) :
    c ∈ digits := by
  obtain ⟨i, _, rfl⟩ := List.mem_map.1 h
  exact hexDigit_mem (Nat.mod_lt _ (by decide))

@[simp] theorem length_hexDigits (d : Draw) (n : Nat) : (d.hexDigits n).length = n := by
  simp [hexDigits]

end Draw

namespace InstanceName

/-- How many random digits follow the mark in a generated name. -/
def randomDigits : Nat := 11

/-- The characters of the generated name for a random number: the mark and the number's first
digits. -/
def randomChars (d : Draw) : List Char := ownedMark.toList ++ d.hexDigits randomDigits

theorem utf8ByteSize_ofList_of_ascii {l : List Char} (h : ∀ c ∈ l, c.utf8Size = 1) :
    (String.ofList l).utf8ByteSize = l.length := by
  induction l with
  | nil => rfl
  | cons c rest ih =>
    rw [String.ofList_cons, String.utf8ByteSize_append, String.utf8ByteSize_singleton,
      h c List.mem_cons_self, ih fun c hc => h c (List.mem_cons_of_mem _ hc), List.length_cons,
      Nat.add_comm]

theorem randomChars_plain (d : Draw) {c : Char} (h : c ∈ randomChars d) :
    c.utf8Size = 1 ∧ isInstanceNameChar c = true := by
  let isPlain (c : Char) : Bool := c.utf8Size == 1 && isInstanceNameChar c
  have marks : ownedMark.toList.all isPlain = true := by decide
  have digits : Draw.digits.all isPlain = true := by decide
  have plain : isPlain c = true := by
    rcases List.mem_append.1 h with h | h
    · exact List.all_eq_true.1 marks c h
    · exact List.all_eq_true.1 digits c (Draw.mem_digits_of_mem_hexDigits h)
  simpa only [isPlain, Bool.and_eq_true, beq_iff_eq] using plain

/-- A generated name is as long as a name may be. -/
theorem utf8ByteSize_randomChars (d : Draw) :
    (String.ofList (randomChars d)).utf8ByteSize = maxInstanceName := by
  rw [utf8ByteSize_ofList_of_ascii fun c hc => (randomChars_plain d hc).1]
  simp only [randomChars, List.length_append, Draw.length_hexDigits]
  decide

theorem instanceNameFault?_randomChars (d : Draw) :
    instanceNameFault? (String.ofList (randomChars d)) = none := by
  have long : (randomChars d).length = 16 := by
    simp only [randomChars, List.length_append, Draw.length_hexDigits]
    decide
  have ne : ∀ s : String, s.toList.length ≠ 16 → String.ofList (randomChars d) ≠ s := by
    intro s hs heq
    apply hs
    rw [← heq, String.toList_ofList, long]
  have plain : (String.ofList (randomChars d)).toList.all isInstanceNameChar = true := by
    rw [String.toList_ofList, List.all_eq_true]
    exact fun c hc => (randomChars_plain d hc).2
  unfold instanceNameFault?
  rw [if_neg (ne "" (by decide)), utf8ByteSize_randomChars, if_neg (Nat.lt_irrefl _),
    if_neg (not_or.2 ⟨ne "." (by decide), ne ".." (by decide)⟩), if_pos plain]

def random (d : Draw) : InstanceName :=
  ⟨String.ofList (randomChars d), instanceNameFault?_randomChars d⟩

theorem isOwnedText_random (d : Draw) : isOwnedText (random d).text = true := by
  rw [isOwnedText, List.isPrefixOf_iff_prefix, random, String.toList_ofList]
  exact ⟨_, rfl⟩

end InstanceName

end KernelTrace

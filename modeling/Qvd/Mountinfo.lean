import Mathlib.Data.List.Forall2
import Mathlib.Data.List.GetD
import Mathlib.Data.List.Nodup
import Qvd.EscapedFields
import Qvd.LineText

/-!
The mount table of a process: the file the kernel prints for it, and what the parser of
Linux::Proc::Mountinfo reads from the file.
-/
namespace Qvd.Mountinfo

open EscapedFields LineText

/-! ### What the kernel prints -/

/-- One octal digit. -/
def octalDigit (d : ℕ) : Char := Char.ofNat (48 + d)

/-- A character as a backslash and three octal digits. -/
def octal (c : Char) : Text :=
  ['\\', octalDigit (c.toNat / 64), octalDigit (c.toNat / 8 % 8), octalDigit (c.toNat % 8)]

/-- Which bytes of a field the kernel escapes: white space that would break the line or the
field, the backslash, and those it likes. -/
structure Kernel where
  escapes : Char → Bool
  space : escapes ' ' = true
  tab : escapes '\t' = true
  newline : escapes '\n' = true
  backslash : escapes '\\' = true
  byte : ∀ c, escapes c = true → c.toNat < 256

namespace Kernel

variable (k : Kernel)

def mangleChar (c : Char) : Text := if k.escapes c then octal c else [c]

def mangle (field : Text) : Text := field.flatMap k.mangleChar

end Kernel

/-- A mount. Only its source can be empty, and no optional field is the separator. -/
structure Mount where
  mountId : ℕ
  parentId : ℕ
  majorMinor : Text
  root : Text
  mountPoint : Text
  mountOptions : Text
  optionalFields : List Text
  fsType : Text
  mountSource : Text
  superOptions : Text
  filled : ∀ field ∈ [majorMinor, root, mountPoint, mountOptions, fsType, superOptions] ++
    optionalFields, field ≠ []
  tags : ∀ field ∈ optionalFields, field ≠ ['-']

/-- The texts of a mount. -/
def Mount.texts (m : Mount) : List Text :=
  [m.majorMinor, m.root, m.mountPoint, m.mountOptions] ++ m.optionalFields ++
    [m.fsType, m.mountSource, m.superOptions]

structure MountTable where
  mounts : List Mount
  unique : (mounts.map Mount.mountId).Nodup

section Printing

variable (k : Kernel)

def decimal (n : ℕ) : Text := Nat.toDigits 10 n

def printedFields (m : Mount) : List Text :=
  [decimal m.mountId, decimal m.parentId] ++
    [m.majorMinor, m.root, m.mountPoint, m.mountOptions].map k.mangle ++
    m.optionalFields.map k.mangle ++ [['-']] ++
    [m.fsType, m.mountSource, m.superOptions].map k.mangle

def printedLine (m : Mount) : Text := List.intercalate [' '] (printedFields k m)

def file (t : MountTable) : Text := t.mounts.flatMap fun m => printedLine k m ++ ['\n']

end Printing

/-! ### What is read -/

def isOctal (c : Char) : Bool := '0'.toNat ≤ c.toNat && c.toNat ≤ '7'.toNat

def octalValue (digits : Text) : ℕ := Nat.ofDigitChars 8 digits 0

/-- `s/\\([0-7]{1,3})/chr oct $1/g` -/
def unescape : Text → Text
  | [] => []
  | c :: s =>
    if c = '\\' ∧ (s.take 3).takeWhile isOctal ≠ [] then
      Char.ofNat (octalValue ((s.take 3).takeWhile isOctal)) ::
        unescape (s.drop ((s.take 3).takeWhile isOctal).length)
    else c :: unescape s
termination_by s => s.length
decreasing_by
  all_goals simp only [List.length_cons, List.length_drop]
  all_goals omega

/-- `s|/+|/|g` -/
def squeeze : Text → Text
  | '/' :: '/' :: s => squeeze ('/' :: s)
  | c :: s => c :: squeeze s
  | [] => []

/-- `s|/?$|/|`, where the end is also before a last line feed. -/
def endSlash (mnt : Text) : Text :=
  let body := if mnt.getLast? = some '\n' then mnt.dropLast else mnt
  (if body.getLast? = some '/' then body else body ++ ['/']) ++ mnt.drop body.length

/-- `_key` -/
def key (mnt : Text) : Text :=
  (endSlash (squeeze mnt)).flatMap fun c => if c = '\x00' ∨ c = '/' then ['\x00', c] else [c]

/-- What Linux::Proc::Mountinfo::Entry keeps of a line: the fields before the optional ones
and after the separator, which fill the slots of its array from the first one on, and what
follows them there. -/
structure Entry where
  fields : List Text
  optional : List Text
  lineNumber : ℕ
  line : Text
  key : Text
deriving DecidableEq

namespace Entry

variable (e : Entry)

def mountId : Text := e.fields.getD 0 []
def parentId : Text := e.fields.getD 1 []
def majorMinor : Text := e.fields.getD 2 []
def root : Text := e.fields.getD 3 []
def mountPoint : Text := e.fields.getD 4 []
def mountOptions : Text := e.fields.getD 5 []
def fsType : Text := e.fields.getD 6 []
def mountSource : Text := e.fields.getD 7 []
def superOptions : Text := e.fields.getD 8 []

/-- The slots after the fields are where they are looked for. -/
def Aligned : Prop := e.fields.length = 9

instance : Decidable e.Aligned := inferInstanceAs (Decidable (_ = _))

/-- The accessor dies when its slot holds a text. -/
def optionalFields : Option (List Text) := if e.Aligned then some e.optional else none

end Entry

/-- `my ($dash_ix) = grep $fields[$_] eq '-', 6 .. $#fields` -/
def dashIx (fields : List Text) : Option ℕ :=
  ((fields.drop 6).findIdx? (fun f => decide (f = ['-']))).map (· + 6)

def readLine (line : Text) (lineNumber : ℕ) : Option Entry :=
  let fields := words isSpace line
  match dashIx fields with
  | none => none
  | some dash =>
    if fields.length < dash + 4 then none
    else
      let fields := fields.map unescape
      some { fields := fields.take 6 ++ fields.drop (dash + 1)
             optional := (fields.take dash).drop 6
             lineNumber := lineNumber
             line := line
             key := key (fields.getD 4 []) }

/-- The number a text counts as. -/
def number (s : Text) : ℕ := Nat.ofDigitChars 10 (s.takeWhile Char.isDigit) 0

/-- `$entry_by_id{$entry->[1]}`, for an entry that is not its own parent. -/
def parentOf (entries : List Entry) (e : Entry) : Option Entry :=
  if number e.mountId = number e.parentId then none
  else entries.reverse.find? (fun p => decide (p.mountId = e.parentId))

/-- The object: its entries, each linked to its parent. -/
structure Info where
  entries : List Entry

/-- What the slot for children holds, where it is the one they were pushed to. -/
def Info.children (mi : Info) (e : Entry) : Option (List Entry) :=
  if e.Aligned then some (mi.entries.filter (fun c => decide (parentOf mi.entries c = some e)))
  else none

/-- Linking dies on a parent whose slot for children holds a text; with four fields too many
it holds the optional fields. -/
def linkable (entries : List Entry) : Bool :=
  entries.all fun e => (parentOf entries e).all fun p => p.fields.length ∈ [9, 13]

def read (file : Text) : Option Info :=
  let entries := ((lines file).zipIdx 1).filterMap fun l => readLine l.1 l.2
  if linkable entries then some { entries := entries } else none

/-! ### What is asked of it -/

/-- The entry is the mount, field by field. -/
structure Same (m : Mount) (e : Entry) : Prop where
  mountId : e.mountId = decimal m.mountId
  parentId : e.parentId = decimal m.parentId
  majorMinor : e.majorMinor = m.majorMinor
  root : e.root = m.root
  mountPoint : e.mountPoint = m.mountPoint
  mountOptions : e.mountOptions = m.mountOptions
  optionalFields : e.optionalFields = some m.optionalFields
  fsType : e.fsType = m.fsType
  mountSource : e.mountSource = m.mountSource
  superOptions : e.superOptions = m.superOptions

/-- The object has exactly the mounts for its entries, and the children of each are the
entries whose parent id is its id. -/
structure Recovers (t : MountTable) (mi : Info) : Prop where
  same : List.Forall₂ Same t.mounts mi.entries
  children : ∀ e ∈ mi.entries,
    mi.children e = some (mi.entries.filter (fun c => decide (c.parentId = e.mountId)))

/-- The same, where the kernel's mark of a root, a mount that is its own parent, does not make
it its own child. -/
structure RecoversTree (t : MountTable) (mi : Info) : Prop where
  same : List.Forall₂ Same t.mounts mi.entries
  children : ∀ e ∈ mi.entries, mi.children e =
    some (mi.entries.filter (fun c => decide (c.parentId = e.mountId ∧ c ≠ e)))

/-- The mount has a source, and no white space the kernel leaves as it is. -/
structure Readable (k : Kernel) (m : Mount) : Prop where
  source : m.mountSource ≠ []
  escaped : ∀ field ∈ m.texts, ∀ c ∈ field, isSpace c = true → k.escapes c = true

/-! ### Escapes -/

section Escapes

variable {k : Kernel} {c : Char} {s : Text} {n : ℕ}

theorem toNat_octalDigit (hn : n < 8) : (octalDigit n).toNat = 48 + n := by
  have hall : ∀ n < 8, (octalDigit n).toNat = 48 + n := by decide
  exact hall n hn

theorem isOctal_octalDigit (hn : n < 8) : isOctal (octalDigit n) = true := by
  simp only [isOctal, toNat_octalDigit hn, Bool.and_eq_true, decide_eq_true_eq]
  exact ⟨Nat.le_add_right _ _, by show 48 + n ≤ 55; omega⟩

theorem unescape_cons_of_ne (hc : c ≠ '\\') : unescape (c :: s) = c :: unescape s := by
  rw [unescape, if_neg fun h => hc h.1]

theorem unescape_octal (hc : c.toNat < 256) : unescape (octal c ++ s) = c :: unescape s := by
  have h₁ : c.toNat / 64 < 8 := by omega
  have h₂ : c.toNat / 8 % 8 < 8 := by omega
  have h₃ : c.toNat % 8 < 8 := by omega
  have hdigits : ((octalDigit (c.toNat / 64) :: octalDigit (c.toNat / 8 % 8) ::
      octalDigit (c.toNat % 8) :: s).take 3).takeWhile isOctal =
      [octalDigit (c.toNat / 64), octalDigit (c.toNat / 8 % 8), octalDigit (c.toNat % 8)] := by
    simp [isOctal_octalDigit, h₁, h₂, h₃]
  have hvalue : octalValue [octalDigit (c.toNat / 64), octalDigit (c.toNat / 8 % 8),
      octalDigit (c.toNat % 8)] = c.toNat := by
    have hzero : '0'.toNat = 48 := rfl
    simp only [octalValue, Nat.ofDigitChars_cons, Nat.ofDigitChars_nil, toNat_octalDigit h₁,
      toNat_octalDigit h₂, toNat_octalDigit h₃, hzero]
    omega
  rw [octal, List.cons_append, List.cons_append, List.cons_append, List.cons_append,
    List.nil_append, unescape, hdigits, if_pos ⟨rfl, by simp⟩, hvalue, Char.ofNat_toNat]
  rfl

/-- Reading a mangled text gives it back. -/
theorem unescape_mangle (k : Kernel) (s : Text) : unescape (k.mangle s) = s := by
  induction s with
  | nil => rw [Kernel.mangle, List.flatMap_nil, unescape]
  | cons c s ih =>
    rw [Kernel.mangle, List.flatMap_cons, Kernel.mangleChar]
    cases hc : k.escapes c with
    | true =>
      rw [if_pos rfl, unescape_octal (k.byte c hc)]
      exact congrArg (c :: ·) ih
    | false =>
      have hne : c ≠ '\\' := fun h => by
        rw [h, k.backslash] at hc
        cases hc
      rw [if_neg (by simp), List.singleton_append, unescape_cons_of_ne hne]
      exact congrArg (c :: ·) ih

theorem unescape_of_not_mem (h : '\\' ∉ s) : unescape s = s := by
  induction s with
  | nil => rw [unescape]
  | cons c s ih =>
    rw [List.mem_cons, not_or] at h
    rw [unescape_cons_of_ne (Ne.symm h.1), ih h.2]

/-- The white space the kernel leaves as it is. -/
def raw (k : Kernel) (c : Char) : Bool := isSpace c && !k.escapes c

theorem isOctal_not_space (h : isOctal c = true) : isSpace c = false :=
  not_space_of isOctal (by decide) h

/-- The kernel's escapes are a code for the texts it prints. -/
def mangling (k : Kernel) : Code isSpace (raw k) where
  write := k.mangleChar
  separator c hc := by
    rw [raw, Bool.and_eq_true, Bool.not_eq_true'] at hc
    exact ⟨c, by rw [Kernel.mangleChar, hc.2]; rfl, hc.1⟩
  letter c hc := by
    rw [Kernel.mangleChar]
    split
    · next hesc =>
      refine ⟨by simp [octal], fun d hd => ?_⟩
      have hbyte := k.byte c hesc
      rw [octal, List.mem_cons] at hd
      rcases hd with rfl | hd
      · decide
      · refine isOctal_not_space ?_
        simp only [List.mem_cons, List.not_mem_nil, or_false] at hd
        rcases hd with rfl | rfl | rfl
        · exact isOctal_octalDigit (by omega)
        · exact isOctal_octalDigit (by omega)
        · exact isOctal_octalDigit (by omega)
    · next hesc =>
      refine ⟨by simp, fun d hd => ?_⟩
      rw [List.mem_singleton] at hd
      rw [hd]
      simpa [raw, hesc] using hc

theorem words_mangle (k : Kernel) (s : Text) :
    words isSpace (k.mangle s) = (words (raw k) s).map k.mangle :=
  words_write (mangling k) s

end Escapes

/-! ### Lines -/

section Lines

variable {k : Kernel} {m : Mount} {e : Entry} {n : ℕ}

theorem decimal_digits (n : ℕ) : ∀ c ∈ decimal n, c.isDigit = true :=
  fun _ hc => Nat.isDigit_of_mem_toDigits (by decide) (by decide) hc

theorem decimal_ne_nil (n : ℕ) : decimal n ≠ [] := Nat.toDigits_ne_nil

theorem words_decimal (n : ℕ) : words isSpace (decimal n) = [decimal n] :=
  words_of_none (fun c hc => isDigit_not_space (decimal_digits n c hc)) (decimal_ne_nil n)

theorem unescape_decimal (n : ℕ) : unescape (decimal n) = decimal n :=
  unescape_of_not_mem fun h => absurd (decimal_digits n _ h) (by decide)

theorem unescape_dash : unescape ['-'] = ['-'] := unescape_of_not_mem (by decide)

theorem mem_printedFields {field : Text} (h : field ∈ printedFields k m) :
    (∃ n, field = decimal n) ∨ field = ['-'] ∨ ∃ f ∈ m.texts, field = k.mangle f := by
  simp only [printedFields, List.mem_append, List.mem_cons, List.not_mem_nil, or_false,
    List.mem_map] at h
  simp only [Mount.texts, List.mem_append, List.mem_cons, List.not_mem_nil, or_false]
  rcases h with ((((rfl | rfl) | ⟨f, hf, rfl⟩) | ⟨f, hf, rfl⟩) | rfl) | ⟨f, hf, rfl⟩
  · exact .inl ⟨_, rfl⟩
  · exact .inl ⟨_, rfl⟩
  · exact .inr (.inr ⟨f, .inl (.inl hf), rfl⟩)
  · exact .inr (.inr ⟨f, .inl (.inr hf), rfl⟩)
  · exact .inr (.inl rfl)
  · exact .inr (.inr ⟨f, .inr hf, rfl⟩)

theorem texts_filled (h : m.mountSource ≠ []) : ∀ f ∈ m.texts, f ≠ [] := by
  intro f hf
  by_cases hsource : f = m.mountSource
  · exact hsource ▸ h
  · refine m.filled f ?_
    simp only [Mount.texts, List.mem_append, List.mem_cons, List.not_mem_nil, or_false] at hf ⊢
    tauto

/-- What is read of one printed line: texts without white space the kernel would have left
as it is. -/
theorem unescape_word {w : Text} (hw : w ∈ words isSpace (printedLine k m)) :
    unescape w ≠ [] ∧ ∀ c ∈ unescape w, isSpace c = true → k.escapes c = true := by
  rw [printedLine, words_intercalate (by decide), List.mem_flatMap] at hw
  obtain ⟨field, hfield, hw⟩ := hw
  rcases mem_printedFields hfield with ⟨n, rfl⟩ | rfl | ⟨f, -, rfl⟩
  · rw [words_decimal, List.mem_singleton] at hw
    rw [hw, unescape_decimal]
    refine ⟨decimal_ne_nil n, fun c hc hspace => ?_⟩
    rw [isDigit_not_space (decimal_digits n c hc)] at hspace
    cases hspace
  · rw [words_of_none (List.forall_mem_singleton.mpr (by decide)) (by decide),
      List.mem_singleton] at hw
    rw [hw, unescape_dash]
    refine ⟨by decide, fun c hc hspace => ?_⟩
    rw [List.mem_singleton.mp hc] at hspace
    exact absurd hspace (by decide)
  · rw [words_mangle, List.mem_map] at hw
    obtain ⟨v, hv, rfl⟩ := hw
    rw [unescape_mangle]
    refine ⟨ne_nil_of_mem_words hv, fun c hc hspace => ?_⟩
    have hraw := (mem_of_mem_words hv c hc).2
    simpa [raw, hspace] using hraw

/-- A mount whose fields are filled and have no raw white space is printed as the words of its
line. -/
theorem words_printedLine (h : Readable k m) :
    words isSpace (printedLine k m) = printedFields k m := by
  have hwords : ∀ field ∈ printedFields k m, words isSpace field = [field] := by
    intro field hfield
    rcases mem_printedFields hfield with ⟨n, rfl⟩ | rfl | ⟨f, hf, rfl⟩
    · exact words_decimal n
    · exact words_of_none (List.forall_mem_singleton.mpr (by decide)) (by decide)
    · rw [words_mangle, words_of_none (fun c hc => ?_) (texts_filled h.source f hf)]
      · rfl
      · cases hspace : isSpace c with
        | true => rw [raw, hspace, h.escaped f hf c hc hspace]; rfl
        | false => rw [raw, hspace]; rfl
  rw [printedLine, words_intercalate (by decide), List.flatMap_congr hwords]
  simp

/-- The entry such a mount is read as. -/
def entryOf (k : Kernel) (m : Mount) (n : ℕ) : Entry where
  fields := [decimal m.mountId, decimal m.parentId, m.majorMinor, m.root, m.mountPoint,
    m.mountOptions, m.fsType, m.mountSource, m.superOptions]
  optional := m.optionalFields
  lineNumber := n
  line := printedLine k m
  key := key m.mountPoint

theorem mangle_ne_dash {field : Text} (h : field ≠ ['-']) : k.mangle field ≠ ['-'] := by
  intro hdash
  have heq := unescape_mangle k field
  rw [hdash, unescape_dash] at heq
  exact h heq.symm

theorem dashIx_printedFields (k : Kernel) (m : Mount) :
    dashIx (printedFields k m) = some (6 + m.optionalFields.length) := by
  have hdrop : (printedFields k m).drop 6 = m.optionalFields.map k.mangle ++
      ['-'] :: [m.fsType, m.mountSource, m.superOptions].map k.mangle := by
    simp [printedFields]
  have hnone : (m.optionalFields.map k.mangle).findIdx? (fun f => decide (f = ['-'])) = none := by
    rw [List.findIdx?_eq_none_iff]
    intro f hf
    obtain ⟨field, hfield, rfl⟩ := List.mem_map.mp hf
    simpa using mangle_ne_dash (m.tags field hfield)
  rw [dashIx, hdrop, List.findIdx?_append, hnone, List.findIdx?_cons]
  simp [Nat.add_comm]

theorem map_unescape_printedFields (k : Kernel) (m : Mount) :
    (printedFields k m).map unescape =
      [decimal m.mountId, decimal m.parentId, m.majorMinor, m.root, m.mountPoint,
        m.mountOptions] ++ (m.optionalFields ++
        (['-'] :: [m.fsType, m.mountSource, m.superOptions])) := by
  have hid : unescape ∘ k.mangle = id := funext (unescape_mangle k)
  simp [printedFields, unescape_decimal, unescape_mangle, unescape_dash, hid]

/-- The parts of a list around a separator. -/
theorem parts_around (six optional rest : List Text) (dash : Text) (hsix : six.length = 6) :
    (six ++ (optional ++ dash :: rest)).take 6 = six ∧
      (six ++ (optional ++ dash :: rest)).drop (6 + optional.length + 1) = rest ∧
      ((six ++ (optional ++ dash :: rest)).take (6 + optional.length)).drop 6 = optional := by
  refine ⟨List.take_left' hsix, ?_, ?_⟩
  · have hsplit : six ++ (optional ++ dash :: rest) = (six ++ optional ++ [dash]) ++ rest := by
      simp
    rw [hsplit]
    exact List.drop_left' (by simp [hsix, Nat.add_assoc])
  · have hsplit : six ++ (optional ++ dash :: rest) = (six ++ optional) ++ dash :: rest := by
      simp
    rw [hsplit, List.take_left' (by simp [hsix])]
    exact List.drop_left' hsix

theorem readLine_printedLine (h : Readable k m) (n : ℕ) :
    readLine (printedLine k m) n = some (entryOf k m n) := by
  have hlength : (printedFields k m).length = 6 + m.optionalFields.length + 4 := by
    simp [printedFields]
    omega
  obtain ⟨htake, hdrop, hoptional⟩ := parts_around
    [decimal m.mountId, decimal m.parentId, m.majorMinor, m.root, m.mountPoint, m.mountOptions]
    m.optionalFields [m.fsType, m.mountSource, m.superOptions] ['-'] rfl
  rw [readLine, words_printedLine h]
  dsimp only
  rw [dashIx_printedFields]
  dsimp only
  rw [if_neg (by omega), map_unescape_printedFields, htake, hdrop, hoptional]
  rfl

/-- Every text of an entry that is read is a word that was printed. -/
theorem word_of_readLine {line : Text} (h : readLine line n = some e) {f : Text}
    (hf : f ∈ e.fields ∨ f ∈ e.optional) : ∃ w ∈ words isSpace line, f = unescape w := by
  rw [readLine] at h
  dsimp only at h
  split at h
  · cases h
  · split at h
    · cases h
    · cases h
      have hmem : f ∈ (words isSpace line).map unescape := by
        rcases hf with hf | hf
        · rcases List.mem_append.mp hf with hf | hf
          · exact List.mem_of_mem_take hf
          · exact List.mem_of_mem_drop hf
        · exact List.mem_of_mem_take (List.mem_of_mem_drop hf)
      obtain ⟨w, hw, rfl⟩ := List.mem_map.mp hmem
      exact ⟨w, hw, rfl⟩

theorem length_of_readLine {line : Text} (h : readLine line n = some e) : 9 ≤ e.fields.length := by
  rw [readLine] at h
  dsimp only at h
  split at h
  · cases h
  · next dash hdash =>
    split at h
    · cases h
    · next hlength =>
      cases h
      simp only [List.length_append, List.length_take, List.length_drop, List.length_map]
      have hsix : 6 ≤ dash := by
        rw [dashIx, Option.map_eq_some_iff] at hdash
        obtain ⟨i, -, rfl⟩ := hdash
        exact Nat.le_add_left 6 i
      omega

theorem newline_not_mem (k : Kernel) (m : Mount) : '\n' ∉ printedLine k m := by
  intro h
  rcases mem_of_mem_intercalate h with heq | ⟨field, hfield, hmem⟩
  · exact absurd heq (by decide)
  rcases mem_printedFields hfield with ⟨n, rfl⟩ | rfl | ⟨f, -, rfl⟩
  · exact absurd (decimal_digits n _ hmem) (by decide)
  · exact absurd hmem (by decide)
  · obtain ⟨c, -, hc⟩ := List.mem_flatMap.mp hmem
    cases hraw : raw k c with
    | true =>
      -- The kernel escapes line feeds, so what it leaves as it is are others.
      rw [raw, Bool.and_eq_true, Bool.not_eq_true'] at hraw
      rw [Kernel.mangleChar, hraw.2, if_neg (by decide), List.mem_singleton] at hc
      rw [← hc, k.newline] at hraw
      cases hraw.2
    | false =>
      have hspace := ((mangling k).letter c hraw).2 _ hc
      exact absurd hspace (by decide)

theorem lines_file (k : Kernel) (t : MountTable) :
    lines (file k t) = t.mounts.map (printedLine k) := by
  have hfile : file k t = (t.mounts.map (printedLine k)).flatMap fun l => l ++ ['\n'] := by
    rw [file, List.flatMap_map]
  rw [hfile]
  refine lines_flatMap fun l hl => ?_
  obtain ⟨m, -, rfl⟩ := List.mem_map.mp hl
  exact newline_not_mem k m

end Lines

/-! ### Whole files -/

section Files

variable {k : Kernel} {t : MountTable} {mi : Info} {e : Entry}

def entriesOf (k : Kernel) (t : MountTable) : List Entry :=
  ((lines (file k t)).zipIdx 1).filterMap fun l => readLine l.1 l.2

theorem mem_entriesOf (he : e ∈ entriesOf k t) :
    ∃ m ∈ t.mounts, ∃ n, readLine (printedLine k m) n = some e := by
  rw [entriesOf, lines_file, List.mem_filterMap] at he
  obtain ⟨⟨line, n⟩, hmem, hread⟩ := he
  obtain ⟨m, hm, rfl⟩ := List.mem_map.mp (List.fst_mem_of_mem_zipIdx hmem)
  exact ⟨m, hm, n, hread⟩

theorem number_decimal (n : ℕ) : number (decimal n) = n := by
  rw [number, List.takeWhile_eq_self_iff.mpr (decimal_digits n), decimal,
    Nat.ofDigitChars_toDigits (by decide) (by decide)]

theorem decimal_injective : Function.Injective decimal := fun a b h => by
  rw [← number_decimal a, h, number_decimal]

/-- Readable mounts are read one by one. -/
theorem entriesOf_eq (h : ∀ m ∈ t.mounts, Readable k m) :
    entriesOf k t = (t.mounts.zipIdx 1).map fun p => entryOf k p.1 p.2 := by
  rw [entriesOf, lines_file, List.zipIdx_map, List.filterMap_map]
  rw [List.filterMap_congr (g := fun p => some (entryOf k p.1 p.2)) fun p hp => ?_]
  · exact congrFun List.filterMap_eq_map _
  · exact readLine_printedLine (h p.1 (List.fst_mem_of_mem_zipIdx hp)) p.2

theorem mem_of_mem_entriesOf (h : ∀ m ∈ t.mounts, Readable k m) (he : e ∈ entriesOf k t) :
    ∃ m ∈ t.mounts, ∃ n, e = entryOf k m n := by
  obtain ⟨m, hm, n, hread⟩ := mem_entriesOf he
  rw [readLine_printedLine (h m hm)] at hread
  exact ⟨m, hm, n, (Option.some.inj hread).symm⟩

/-- No two of the entries have one id. -/
theorem eq_of_mountId (h : ∀ m ∈ t.mounts, Readable k m) {e' : Entry}
    (he : e ∈ entriesOf k t) (he' : e' ∈ entriesOf k t) (hid : e.mountId = e'.mountId) :
    e = e' := by
  have hids : (entriesOf k t).map Entry.mountId =
      (t.mounts.map Mount.mountId).map decimal := by
    rw [entriesOf_eq h, List.map_map, List.map_map]
    have hcongr : (fun p : Mount × ℕ => decimal p.1.mountId) =
        (decimal ∘ Mount.mountId) ∘ Prod.fst := rfl
    show List.map (fun p : Mount × ℕ => decimal p.1.mountId) _ = _
    rw [hcongr, ← List.map_map, List.zipIdx_map_fst]
  have hnodup : ((entriesOf k t).map Entry.mountId).Nodup := by
    rw [hids]
    exact List.Nodup.map decimal_injective t.unique
  exact List.inj_on_of_nodup_map hnodup he he' hid

/-- Among readable mounts an entry's parent is the other one with its parent id. -/
theorem parentOf_eq_some_iff (h : ∀ m ∈ t.mounts, Readable k m) {c : Entry}
    (hc : c ∈ entriesOf k t) (he : e ∈ entriesOf k t) :
    parentOf (entriesOf k t) c = some e ↔ c.parentId = e.mountId ∧ c ≠ e := by
  have hown : number c.mountId = number c.parentId ↔ c.mountId = c.parentId := by
    obtain ⟨m, -, n, rfl⟩ := mem_of_mem_entriesOf h hc
    show number (decimal m.mountId) = number (decimal m.parentId) ↔
      decimal m.mountId = decimal m.parentId
    rw [number_decimal, number_decimal]
    exact decimal_injective.eq_iff.symm
  rw [parentOf]
  constructor
  · intro hfound
    split at hfound
    · cases hfound
    · next hother =>
      have hid : e.mountId = c.parentId := of_decide_eq_true (List.find?_some hfound :)
      exact ⟨hid.symm, fun heq => hother (hown.mpr (heq ▸ hid))⟩
  · rintro ⟨hid, hne⟩
    have hother : c.mountId ≠ c.parentId :=
      fun heq => hne (eq_of_mountId h hc he (heq.trans hid))
    rw [if_neg (mt hown.mp hother)]
    have hsome : ((entriesOf k t).reverse.find?
        fun p => decide (p.mountId = c.parentId)).isSome := by
      rw [List.find?_isSome]
      exact ⟨e, List.mem_reverse.mpr he, decide_eq_true hid.symm⟩
    obtain ⟨p, hp⟩ := Option.isSome_iff_exists.mp hsome
    have hpid : p.mountId = c.parentId := of_decide_eq_true (List.find?_some hp :)
    rw [hp, eq_of_mountId h (List.mem_reverse.mp (List.mem_of_find?_eq_some hp)) he
      (hpid.trans hid)]

theorem recoversTree_of_readable (h : ∀ m ∈ t.mounts, Readable k m) :
    ∃ mi, read (file k t) = some mi ∧ RecoversTree t mi := by
  have haligned : ∀ e ∈ entriesOf k t, e.Aligned := by
    intro e he
    obtain ⟨m, -, n, rfl⟩ := mem_of_mem_entriesOf h he
    rfl
  have hlinkable : linkable (entriesOf k t) = true := by
    rw [linkable, List.all_eq_true]
    intro e _
    cases hp : parentOf (entriesOf k t) e with
    | none => rfl
    | some p =>
      rw [parentOf] at hp
      split at hp
      · cases hp
      · have hmem := List.mem_reverse.mp (List.mem_of_find?_eq_some hp)
        have hlength : p.fields.length = 9 := haligned p hmem
        simp [hlength]
  refine ⟨⟨entriesOf k t⟩, if_pos hlinkable, ?_, fun e he => ?_⟩
  · show List.Forall₂ Same t.mounts (entriesOf k t)
    have hzip : (t.mounts.zipIdx 1).map Prod.fst = t.mounts := List.zipIdx_map_fst _ _
    rw [entriesOf_eq h, List.forall₂_map_right_iff]
    nth_rewrite 1 [← hzip]
    rw [List.forall₂_map_left_iff, List.forall₂_same]
    exact fun p _ => ⟨rfl, rfl, rfl, rfl, rfl, rfl, if_pos rfl, rfl, rfl, rfl⟩
  · rw [Info.children, if_pos (haligned e he)]
    refine congrArg some (List.filter_congr fun c hc => ?_)
    rw [decide_eq_decide]
    exact parentOf_eq_some_iff h hc he

theorem exists_of_forall₂ {α β : Type} {R : α → β → Prop} {as : List α} {bs : List β}
    (h : List.Forall₂ R as bs) {a : α} (ha : a ∈ as) : ∃ b ∈ bs, R a b := by
  induction h with
  | nil => cases ha
  | cons hab _ ih =>
    rcases List.mem_cons.mp ha with rfl | ha
    · exact ⟨_, List.mem_cons_self, hab⟩
    · obtain ⟨b, hb, hr⟩ := ih ha
      exact ⟨b, List.mem_cons_of_mem _ hb, hr⟩

/-- The texts of an entry that is a mount are among its words. -/
theorem text_of_same {m : Mount} (h : Same m e) {f : Text} (hf : f ∈ m.texts)
    (hlength : 9 ≤ e.fields.length) : f ∈ e.fields ∨ f ∈ e.optional := by
  have hslot (i : ℕ) (hi : i < 9) : e.fields.getD i [] ∈ e.fields := by
    rw [List.getD_eq_getElem _ _ (by omega)]
    exact List.getElem_mem _
  simp only [Mount.texts, List.mem_append, List.mem_cons, List.not_mem_nil, or_false] at hf
  rcases hf with ((rfl | rfl | rfl | rfl) | hf) | rfl | rfl | rfl
  · exact .inl (h.majorMinor ▸ hslot 2 (by decide))
  · exact .inl (h.root ▸ hslot 3 (by decide))
  · exact .inl (h.mountPoint ▸ hslot 4 (by decide))
  · exact .inl (h.mountOptions ▸ hslot 5 (by decide))
  · have hoptional := h.optionalFields
    rw [Entry.optionalFields] at hoptional
    split at hoptional
    · exact .inr (Option.some.inj hoptional ▸ hf)
    · cases hoptional
  · exact .inl (h.fsType ▸ hslot 6 (by decide))
  · exact .inl (h.mountSource ▸ hslot 7 (by decide))
  · exact .inl (h.superOptions ▸ hslot 8 (by decide))

theorem entries_of_read (hread : read (file k t) = some mi) : mi.entries = entriesOf k t := by
  change (if linkable (entriesOf k t) then some { entries := entriesOf k t } else none) =
    some mi at hread
  split at hread
  · cases hread
    rfl
  · cases hread

/-- Nothing is read as a mount that is not readable. -/
theorem readable_of_same (hread : read (file k t) = some mi)
    (h : List.Forall₂ Same t.mounts mi.entries) : ∀ m ∈ t.mounts, Readable k m := by
  intro m hm
  obtain ⟨e, he, hsame⟩ := exists_of_forall₂ h hm
  rw [entries_of_read hread] at he
  obtain ⟨m', -, n, hline⟩ := mem_entriesOf he
  have hword : ∀ f ∈ m.texts, f ≠ [] ∧ ∀ c ∈ f, isSpace c = true → k.escapes c = true := by
    intro f hf
    obtain ⟨w, hw, rfl⟩ := word_of_readLine hline
      (text_of_same hsame hf (length_of_readLine hline))
    exact unescape_word hw
  have hsource : m.mountSource ∈ m.texts := by simp [Mount.texts]
  exact ⟨(hword _ hsource).1, fun f hf => (hword f hf).2⟩

theorem own_iff {m : Mount} (h : Same m e) :
    e.parentId = e.mountId ↔ m.mountId = m.parentId := by
  rw [h.parentId, h.mountId, decimal_injective.eq_iff]
  exact eq_comm

/-- No entry is read as its own child. -/
theorem not_own_child (h : Recovers t mi) {m : Mount} (hm : m ∈ t.mounts) :
    m.mountId ≠ m.parentId := by
  obtain ⟨e, he, hsame⟩ := exists_of_forall₂ h.same hm
  intro heq
  have hown := (own_iff hsame).mpr heq
  have hmem : e ∈ mi.entries.filter (fun c => decide (c.parentId = e.mountId)) :=
    List.mem_filter.mpr ⟨he, decide_eq_true hown⟩
  have hchildren := h.children e he
  rw [Info.children] at hchildren
  split at hchildren
  · rw [← Option.some.inj hchildren, List.mem_filter, decide_eq_true_eq, parentOf,
      if_pos (by rw [hown])] at hmem
    cases hmem.2
  · cases hchildren

theorem recovers_iff_recoversTree :
    Recovers t mi ↔ RecoversTree t mi ∧ ∀ m ∈ t.mounts, m.mountId ≠ m.parentId := by
  -- Without a mount that is its own parent the two filters are one.
  have hfilter : List.Forall₂ Same t.mounts mi.entries →
      (∀ m ∈ t.mounts, m.mountId ≠ m.parentId) → ∀ e ∈ mi.entries,
      mi.entries.filter (fun c => decide (c.parentId = e.mountId ∧ c ≠ e)) =
        mi.entries.filter (fun c => decide (c.parentId = e.mountId)) := by
    intro hsame hother e he
    refine List.filter_congr fun c _ => decide_eq_decide.mpr ⟨And.left, fun hid => ⟨hid, ?_⟩⟩
    rintro rfl
    obtain ⟨m, hm, h⟩ := exists_of_forall₂ hsame.flip he
    exact hother m hm ((own_iff h).mp hid)
  constructor
  · intro h
    have hother : ∀ m ∈ t.mounts, m.mountId ≠ m.parentId := fun m hm => not_own_child h hm
    exact ⟨⟨h.same, fun e he => by rw [hfilter h.same hother e he, h.children e he]⟩, hother⟩
  · rintro ⟨h, hother⟩
    exact ⟨h.same, fun e he => by rw [← hfilter h.same hother e he, h.children e he]⟩

end Files

/-- A kernel that escapes nothing more than it has to. -/
def plainKernel : Kernel where
  escapes c := c ∈ [' ', '\t', '\n', '\\']
  space := rfl
  tab := rfl
  newline := rfl
  backslash := rfl
  byte c h := by
    simp only [List.mem_cons, List.not_mem_nil, or_false, decide_eq_true_eq] at h
    rcases h with rfl | rfl | rfl | rfl <;> decide

/-- A mount from an empty source. -/
def sourceless : Mount where
  mountId := 21
  parentId := 1
  majorMinor := "0:19".toList
  root := "/".toList
  mountPoint := "/mnt".toList
  mountOptions := "rw".toList
  optionalFields := []
  fsType := "tmpfs".toList
  mountSource := []
  superOptions := "rw".toList
  filled := by decide
  tags := by decide

end Qvd.Mountinfo

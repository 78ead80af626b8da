import Coht.Lib.Numeral
import Coht.Mttn.Opcodes

/-!
# Object files (`asm.c`, `emu.c`, `libmtt.c`)

An object file is text: a header with the load address and the number of
instructions, then one line for each instruction with its five fields in
hexadecimal. The assembler writes it. The assembler, the emulator and the
library read it, each with its own routine; the library's is the one that
reports errors.

`Tool.read` is the three routines, `Malloc` what they find where the
instructions are to go. A store past the block that was asked for, or through
the null pointer, is a `fault`. None of them looks at whether a line was there
for each instruction, which is what `objectFile_iff` turns on.
-/

namespace Coht.Mttn

open Coht.Lib

/-! ## Lines of a file -/

def LN : Nat := 128

/-- Up to `n` characters, through the end of the line. -/
def takeLine : Nat → List Char → List Char × List Char
  | 0, file => ([], file)
  | _ + 1, [] => ([], [])
  | n + 1, c :: file =>
    if c = '\n' then ([c], file)
    else (c :: (takeLine n file).1, (takeLine n file).2)

def fgets (size : Nat) (file : List Char) : Option (List Char × List Char) :=
  if file = [] then none else some (takeLine (size - 1) file)

/-- What the `i`-th call of `fgets()` gets. -/
def lineAt : Nat → List Char → Option (List Char)
  | 0, file => (fgets LN file).map Prod.fst
  | i + 1, file => (fgets LN file).bind fun line => lineAt i line.2

section Lines

variable {c : Char} {t file : List Char} {ts : List (List Char)} {n : Nat}

def FitsLine (t : List Char) : Prop := '\n' ∉ t ∧ t.length + 1 < LN

theorem takeLine_text (hline : '\n' ∉ t) (hlt : t.length < n) :
    takeLine n (t ++ '\n' :: file) = (t ++ ['\n'], file) := by
  induction t generalizing n with
  | nil =>
    obtain ⟨n, rfl⟩ : ∃ m, n = m + 1 := ⟨n - 1, by simp at hlt; omega⟩
    rfl
  | cons c t ih =>
    obtain ⟨n, rfl⟩ : ∃ m, n = m + 1 := ⟨n - 1, by omega⟩
    have hc : c ≠ '\n' := fun h => hline (h ▸ List.mem_cons_self)
    have htail := ih (fun h => hline (List.mem_cons_of_mem _ h))
      (Nat.lt_of_succ_lt_succ hlt)
    show takeLine (n + 1) (c :: (t ++ '\n' :: file)) = _
    rw [takeLine, if_neg hc, htail]
    rfl

theorem fgets_text (ht : FitsLine t) :
    fgets LN (t ++ '\n' :: file) = some (t ++ ['\n'], file) := by
  have hlt : t.length < LN - 1 := by
    have := ht.2
    omega
  unfold fgets
  rw [if_neg (by simp), takeLine_text ht.1 hlt]

theorem lineAt_flatMap (hts : ∀ t ∈ ts, FitsLine t) (i : Nat) :
    lineAt i (ts.flatMap (· ++ ['\n'])) = (ts[i]?).map (· ++ ['\n']) := by
  induction ts generalizing i with
  | nil => cases i <;> rfl
  | cons t ts ih =>
    have hget : fgets LN ((t :: ts).flatMap (· ++ ['\n'])) =
        some (t ++ ['\n'], ts.flatMap (· ++ ['\n'])) := by
      rw [List.flatMap_cons, List.append_assoc]
      exact fgets_text (hts t List.mem_cons_self)
    cases i with
    | zero =>
      rw [lineAt, hget]
      rfl
    | succ i =>
      simp only [lineAt, hget, Option.bind_some]
      exact ih (fun t' h => hts t' (List.mem_cons_of_mem _ h)) i

end Lines

/-! ## The writer -/

/-- A program in the memory of the assembler, where an instruction takes eight
bytes. -/
structure Program where
  loadAddress : BitVec 32
  instructions : List Instruction
  inMemory : 8 * instructions.length < 2 ^ 32

/-- A number in the format `"0x%X"`. -/
def field (v : BitVec 32) (t : List Char) : List Char :=
  '0' :: 'x' :: (hexText v.toNat ++ t)

def headerText (p : Program) : List Char :=
  field p.loadAddress (' ' :: field (BitVec.ofNat 32 p.instructions.length) [])

def instructionText (inst : Instruction) : List Char :=
  field (inst.number.setWidth 32) (' ' ::
    field inst.src1 (' ' ::
      field (inst.src2.setWidth 32) (' ' ::
        field (inst.dest.setWidth 32) (' ' ::
          field (inst.crc.setWidth 32) []))))

/-- `WriteObject()`. -/
def writeObject (p : Program) : List Char :=
  (headerText p :: p.instructions.map instructionText).flatMap (· ++ ['\n'])

/-! ## The readers -/

structure ProgramBuf where
  loadAddress : BitVec 32
  instructionCount : BitVec 32
  program : Nat → Instruction

/-- What `malloc()` returns, and what is found there. -/
structure Malloc where
  null : Bool
  found : Nat → Instruction

inductive MttLibError
  | read
  | nomem
deriving DecidableEq

inductive ReadResult
  | done (code : ProgramBuf)
  | refused (error : MttLibError)
  | fault

/-- The five fields of a line. `narrow` is the way a number goes into a
byte. -/
def readInstruction (narrow : BitVec 32 → BitVec 8) (ln : List Char) :
    Instruction :=
  let number := strtoul ln
  let src1 := strtoul number.2
  let src2 := strtoul src1.2
  let dest := strtoul src2.2
  let crc := strtoul dest.2
  { number := narrow number.1
    src1 := src1.1
    src2 := narrow src2.1
    dest := narrow dest.1
    crc := narrow crc.1 }

def readHeader (ln : List Char) : BitVec 32 × BitVec 32 :=
  let loadAddress := strtoul ln
  (loadAddress.1, (strtoul loadAddress.2).1)

/-- The loop over the instructions from number `i` on. A line that is not
there leaves the instruction as it is. -/
def readLines (narrow : BitVec 32 → BitVec 8) (room : Nat) :
    Nat → Nat → (Nat → Instruction) → List Char → Option (Nat → Instruction)
  | 0, _, program, _ => some program
  | k + 1, i, program, file =>
    match fgets LN file with
    | none => readLines narrow room k (i + 1) program file
    | some (ln, rest) =>
      if i < room then
        readLines narrow room k (i + 1)
          (fun j => if j = i then readInstruction narrow ln else program j)
          rest
      else none

/-- The whole instructions in the block for `count` of them. The size in bytes
wraps. -/
def Malloc.room (m : Malloc) (count : BitVec 32) : Nat :=
  if m.null then 0 else 8 * count.toNat % 2 ^ 32 / 8

/-- After the header. -/
def readBody (narrow : BitVec 32 → BitVec 8) (m : Malloc)
    (header : BitVec 32 × BitVec 32) (file : List Char) : ReadResult :=
  match readLines narrow (m.room header.2) header.2.toNat 0 m.found file with
  | none => .fault
  | some program => .done ⟨header.1, header.2, program⟩

/-- `ReadObject()` of the assembler and of the emulator, on what `code` held
before. -/
def readObject (code : ProgramBuf) (m : Malloc) (file : List Char) :
    ReadResult :=
  match fgets LN file with
  | none => readBody (·.setWidth 8) m (code.loadAddress, code.instructionCount)
      file
  | some (ln, rest) => readBody (·.setWidth 8) m (readHeader ln) rest

def asmReadObject := readObject

def emuReadObject := readObject

def mttLibReadObject (_ : ProgramBuf) (m : Malloc) (file : List Char) :
    ReadResult :=
  match fgets LN file with
  | none => .refused .read
  | some (ln, rest) =>
    if m.null then .refused .nomem
    else readBody (fun v => (v.setWidth 16).setWidth 8) m (readHeader ln) rest

inductive Tool
  | asm
  | emu
  | lib
deriving DecidableEq

def Tool.read : Tool → ProgramBuf → Malloc → List Char → ReadResult
  | .asm => asmReadObject
  | .emu => emuReadObject
  | .lib => mttLibReadObject

/-! ## What is read -/

/-- The program that was written comes back. -/
def GivesBack (tool : Tool) (code : ProgramBuf) (m : Malloc) (p : Program) :
    Prop :=
  ∃ code', tool.read code m (writeObject p) = .done code' ∧
    code'.loadAddress = p.loadAddress ∧
    code'.instructionCount.toNat = p.instructions.length ∧
    ∀ i inst, p.instructions[i]? = some inst → code'.program i = inst

/-- A reader that reports success has a line of the file for every
instruction. -/
def OnlyFromFile (tool : Tool) (code : ProgramBuf) (m : Malloc)
    (file : List Char) : Prop :=
  ∀ code', tool.read code m file = .done code' →
    ∀ i < code'.instructionCount.toNat, ∃ ln, lineAt (i + 1) file = some ln ∧
      code'.program i = readInstruction (·.setWidth 8) ln

/-- Load address and number of instructions, from the first line or, without
one, from what `code` held before. -/
def fileHeader (code : ProgramBuf) (file : List Char) :
    BitVec 32 × BitVec 32 :=
  match fgets LN file with
  | none => (code.loadAddress, code.instructionCount)
  | some (ln, _) => readHeader ln

def announced (code : ProgramBuf) (file : List Char) : BitVec 32 :=
  (fileHeader code file).2

def fileBody (file : List Char) : List Char :=
  match fgets LN file with
  | none => file
  | some (_, rest) => rest

/-- The library refuses a file without header, and gives up without memory. -/
def Refused (tool : Tool) (m : Malloc) (file : List Char) : Prop :=
  tool = .lib ∧ (file = [] ∨ m.null = true)

section Read

variable {narrow : BitVec 32 → BitVec 8} {room k i : Nat}
  {program program' : Nat → Instruction} {file rest ln : List Char}

theorem fgets_eq_none (h : fgets LN file = none) : file = [] := by
  unfold fgets at h
  by_cases hnil : file = []
  · exact hnil
  · rw [if_neg hnil] at h
    cases h

theorem lineAt_nil (i : Nat) : lineAt i [] = none := by
  cases i <;> rfl

theorem lineAt_succ (h : fgets LN file = some (ln, rest)) (i : Nat) :
    lineAt (i + 1) file = lineAt i rest := by
  simp only [lineAt, h, Option.bind_some]

theorem readLines_none :
    readLines narrow room k i program file = none ↔
      ∃ j < k, room ≤ i + j ∧ (lineAt j file).isSome := by
  induction k generalizing i program file with
  | zero => simp [readLines]
  | succ k ih =>
    rw [readLines]
    cases hget : fgets LN file with
    | none =>
      obtain rfl := fgets_eq_none hget
      simp [ih, lineAt_nil]
    | some line =>
      obtain ⟨ln, rest⟩ := line
      have hfirst : (lineAt 0 file).isSome := by
        simp [lineAt, hget]
      simp only []
      by_cases hroom : i < room
      · rw [if_pos hroom, ih]
        constructor
        · rintro ⟨j, hj, hfull, hline⟩
          exact ⟨j + 1, by omega, by omega, by rwa [lineAt_succ hget]⟩
        · rintro ⟨j, hj, hfull, hline⟩
          cases j with
          | zero => omega
          | succ j =>
            rw [lineAt_succ hget] at hline
            exact ⟨j, by omega, by omega, hline⟩
      · rw [if_neg hroom]
        exact ⟨fun _ => ⟨0, by omega, by omega, hfirst⟩, fun _ => rfl⟩

theorem readLines_some
    (h : readLines narrow room k i program file = some program') (j : Nat) :
    program' j =
      if i ≤ j ∧ j < i + k then
        ((lineAt (j - i) file).map (readInstruction narrow)).getD (program j)
      else program j := by
  induction k generalizing i program file with
  | zero =>
    injection h with h
    rw [if_neg (by omega), h]
  | succ k ih =>
    rw [readLines] at h
    cases hget : fgets LN file with
    | none =>
      obtain rfl := fgets_eq_none hget
      rw [hget] at h
      rw [ih h]
      simp [lineAt_nil]
    | some line =>
      obtain ⟨ln, rest⟩ := line
      rw [hget] at h
      simp only [] at h
      by_cases hroom : i < room
      · rw [if_pos hroom] at h
        rw [ih h]
        by_cases hj : i = j
        · subst hj
          rw [if_neg (by omega), if_pos rfl, if_pos (by omega), Nat.sub_self]
          simp [lineAt, hget]
        · rw [if_neg (Ne.symm hj)]
          by_cases hin : i ≤ j ∧ j < i + (k + 1)
          · have hshift : j - i = (j - (i + 1)) + 1 := by omega
            rw [if_pos (by omega), if_pos hin, hshift, lineAt_succ hget]
          · rw [if_neg (by omega), if_neg hin]
      · rw [if_neg hroom] at h
        cases h

end Read

section Files

variable {tool : Tool} {code : ProgramBuf} {m : Malloc} {p : Program}
  {file : List Char} {inst : Instruction}

theorem narrow_lib :
    (fun v : BitVec 32 => (v.setWidth 16).setWidth 8) = (·.setWidth 8) := by
  funext v
  exact BitVec.setWidth_setWidth_of_le v (by decide)

theorem read_refused (code : ProgramBuf) (h : Refused tool m file) :
    ∃ e, tool.read code m file = .refused e := by
  obtain ⟨rfl, hfile⟩ := h
  show ∃ e, mttLibReadObject code m file = _
  unfold mttLibReadObject
  cases hget : fgets LN file with
  | none => exact ⟨.read, rfl⟩
  | some line =>
    rcases hfile with rfl | hnull
    · cases hget
    · exact ⟨.nomem, by simp only [hnull, if_true]⟩

theorem read_body (h : ¬ Refused tool m file) :
    tool.read code m file =
      readBody (·.setWidth 8) m (fileHeader code file) (fileBody file) := by
  have hreader : readObject code m file =
      readBody (·.setWidth 8) m (fileHeader code file) (fileBody file) := by
    unfold readObject fileHeader fileBody
    cases fgets LN file <;> rfl
  cases tool with
  | asm => exact hreader
  | emu => exact hreader
  | lib =>
    rw [← hreader]
    show mttLibReadObject code m file = _
    unfold mttLibReadObject readObject
    cases hget : fgets LN file with
    | none => exact absurd ⟨rfl, .inl (fgets_eq_none hget)⟩ h
    | some line =>
      have hnull : ¬ m.null = true := fun hnull => h ⟨rfl, .inr hnull⟩
      simp only [if_neg hnull, narrow_lib]

theorem lineAt_body (i : Nat) : lineAt i (fileBody file) = lineAt (i + 1) file := by
  unfold fileBody
  cases hget : fgets LN file with
  | none =>
    obtain rfl := fgets_eq_none hget
    rw [lineAt_nil, lineAt_nil]
  | some line => exact (lineAt_succ hget i).symm

/-- An instruction of the file finds no room in the block for it. -/
def Overruns (code : ProgramBuf) (m : Malloc) (file : List Char) : Prop :=
  ∃ i < (announced code file).toNat,
    m.room (announced code file) ≤ i ∧ (lineAt (i + 1) file).isSome

theorem read_overruns (h : ¬ Refused tool m file)
    (hfull : Overruns code m file) : tool.read code m file = .fault := by
  obtain ⟨i, hi, hroom, hline⟩ := hfull
  have hstore : m.room (fileHeader code file).2 ≤ 0 + i := by
    rw [Nat.zero_add]
    exact hroom
  rw [← lineAt_body] at hline
  have hlt : i < (fileHeader code file).2.toNat := hi
  rw [read_body h]
  unfold readBody
  rw [readLines_none.mpr ⟨i, hlt, hstore, hline⟩]

theorem read_done (h : ¬ Refused tool m file) (hroom : ¬ Overruns code m file) :
    ∃ code', tool.read code m file = .done code' ∧
      code'.loadAddress = (fileHeader code file).1 ∧
      code'.instructionCount = announced code file ∧
      ∀ i < (announced code file).toNat, ∀ ln, lineAt (i + 1) file = some ln →
        code'.program i = readInstruction (·.setWidth 8) ln := by
  rw [read_body h]
  unfold readBody
  cases hlines : readLines (·.setWidth 8) (m.room (fileHeader code file).2)
      (fileHeader code file).2.toNat 0 m.found (fileBody file) with
  | none =>
    obtain ⟨i, hi, hstore, hline⟩ := readLines_none.mp hlines
    rw [Nat.zero_add] at hstore
    rw [lineAt_body] at hline
    exact absurd ⟨i, hi, hstore, hline⟩ hroom
  | some program =>
    refine ⟨_, rfl, rfl, rfl, fun i hi ln hln => ?_⟩
    have hread := readLines_some hlines i
    rw [Nat.zero_add, Nat.sub_zero, if_pos ⟨Nat.zero_le i, hi⟩, lineAt_body,
      hln] at hread
    exact hread

/-- A line for every instruction that is announced, or no success to report:
the library refuses the file, or an instruction finds no room. -/
def Covered (tool : Tool) (code : ProgramBuf) (m : Malloc)
    (file : List Char) : Prop :=
  Refused tool m file ∨ Overruns code m file ∨
  ∀ i < (announced code file).toNat, (lineAt (i + 1) file).isSome

theorem onlyFromFile_iff :
    OnlyFromFile tool code m file ↔ Covered tool code m file := by
  unfold OnlyFromFile Covered
  by_cases hrefused : Refused tool m file
  · obtain ⟨e, he⟩ := read_refused code hrefused
    simp [he, hrefused]
  · by_cases hfull : Overruns code m file
    · simp [read_overruns hrefused hfull, hfull]
    · obtain ⟨read, hread, -, hcount, hprogram⟩ := read_done hrefused hfull
      simp only [hrefused, hfull, false_or]
      constructor
      · intro h i hi
        rw [← hcount] at hi
        obtain ⟨ln, hln, -⟩ := h read hread i hi
        rw [hln]
        rfl
      · intro h code' hdone i hi
        rw [hread] at hdone
        injection hdone with hdone
        subst hdone
        rw [hcount] at hi
        obtain ⟨ln, hln⟩ := Option.isSome_iff_exists.mp (h i hi)
        exact ⟨ln, hln, hprogram i hi ln hln⟩

/-! ### The file the writer writes -/

theorem field_append (v : BitVec 32) (t t' : List Char) :
    field v t ++ t' = field v (t ++ t') := by
  simp [field]

def Short (n : Nat) (t : List Char) : Prop := '\n' ∉ t ∧ t.length ≤ n

theorem Short.field {n : Nat} {t : List Char} (h : Short n t) (v : BitVec 32) :
    Short (n + 10) (field v t) := by
  obtain ⟨hline, hle⟩ := h
  constructor
  · intro hmem
    simp only [Mttn.field, List.mem_cons, List.mem_append] at hmem
    rcases hmem with h | h | h | h
    · cases h
    · cases h
    · exact hexText_ne_newline h rfl
    · exact hline h
  · have hlength := hexText_length v.isLt
    simp only [Mttn.field, List.length_cons, List.length_append]
    omega

theorem Short.blank {n : Nat} {t : List Char} (h : Short n t) :
    Short (n + 1) (' ' :: t) := by
  obtain ⟨hline, hle⟩ := h
  exact ⟨by simp [hline], Nat.succ_le_succ hle⟩

theorem Short.fitsLine {n : Nat} {t : List Char} (h : Short n t)
    (hn : n + 1 < LN) : FitsLine t :=
  ⟨h.1, Nat.lt_of_le_of_lt (Nat.succ_le_succ h.2) hn⟩

theorem short_nil : Short 0 [] := ⟨by simp, Nat.le_refl 0⟩

theorem fitsLine_header (p : Program) : FitsLine (headerText p) :=
  ((short_nil.field _).blank.field _).fitsLine (by decide)

theorem fitsLine_instruction (inst : Instruction) :
    FitsLine (instructionText inst) :=
  ((((((((short_nil.field _).blank.field _).blank.field _).blank.field
    _).blank.field _)))).fitsLine (by decide)

theorem strtoul_field (blank : List Char) (hblank : ∀ b ∈ blank, isSpace b)
    {c : Char} (hc : digitIn 16 c = none) (v : BitVec 32) (t : List Char) :
    strtoul (blank ++ field v (c :: t)) = (v, c :: t) := by
  have hread := strtoul_hex (t := t) hblank hc v.isLt
  rw [BitVec.ofNat_toNat, BitVec.setWidth_eq] at hread
  exact hread

theorem strtoul_first (v : BitVec 32) (t : List Char) :
    strtoul (field v (' ' :: t)) = (v, ' ' :: t) :=
  strtoul_field [] nofun (by decide) v t

theorem strtoul_next (v : BitVec 32) (t : List Char) :
    strtoul (' ' :: field v (' ' :: t)) = (v, ' ' :: t) :=
  strtoul_field [' '] (by simp [isSpace]) (by decide) v t

theorem strtoul_last (v : BitVec 32) (t : List Char) :
    strtoul (' ' :: field v ('\n' :: t)) = (v, '\n' :: t) :=
  strtoul_field [' '] (by simp [isSpace]) (by decide) v t

theorem readInstruction_text (inst : Instruction) :
    readInstruction (·.setWidth 8) (instructionText inst ++ ['\n']) = inst := by
  have hbyte : ∀ b : BitVec 8, (b.setWidth 32).setWidth 8 = b := by
    intro b
    rw [BitVec.setWidth_setWidth_of_le b (by decide), BitVec.setWidth_eq]
  simp only [readInstruction, instructionText, field_append, List.cons_append,
    List.nil_append, strtoul_first, strtoul_next, strtoul_last, hbyte]

theorem readHeader_text (p : Program) :
    readHeader (headerText p ++ ['\n']) =
      (p.loadAddress, BitVec.ofNat 32 p.instructions.length) := by
  simp only [readHeader, headerText, field_append, List.cons_append,
    List.nil_append, strtoul_first, strtoul_last]

theorem fgets_written (p : Program) :
    fgets LN (writeObject p) = some (headerText p ++ ['\n'],
      (p.instructions.map instructionText).flatMap (· ++ ['\n'])) := by
  unfold writeObject
  rw [List.flatMap_cons, List.append_assoc]
  exact fgets_text (fitsLine_header p)

theorem lineAt_written (p : Program) (i : Nat) :
    lineAt (i + 1) (writeObject p) =
      (p.instructions[i]?).map (instructionText · ++ ['\n']) := by
  rw [lineAt_succ (fgets_written p), lineAt_flatMap]
  · rw [List.getElem?_map, Option.map_map]
    rfl
  · intro t ht
    obtain ⟨inst, -, rfl⟩ := List.mem_map.mp ht
    exact fitsLine_instruction inst

theorem fileHeader_written (p : Program) :
    fileHeader code (writeObject p) =
      (p.loadAddress, BitVec.ofNat 32 p.instructions.length) := by
  unfold fileHeader
  rw [fgets_written]
  exact readHeader_text p

theorem toNat_count (p : Program) :
    (BitVec.ofNat 32 p.instructions.length).toNat = p.instructions.length := by
  have hmem := p.inMemory
  rw [BitVec.toNat_ofNat, Nat.mod_eq_of_lt (by omega)]

theorem room_written (p : Program) (hnull : m.null = false) :
    m.room (BitVec.ofNat 32 p.instructions.length) = p.instructions.length := by
  have hmem := p.inMemory
  unfold Malloc.room
  rw [hnull, toNat_count, Nat.mod_eq_of_lt hmem]
  simp

theorem announced_written (p : Program) :
    announced code (writeObject p) =
      BitVec.ofNat 32 p.instructions.length := by
  rw [announced, fileHeader_written]

theorem not_overruns_written (p : Program) (hnull : m.null = false) :
    ¬ Overruns code m (writeObject p) := by
  rintro ⟨i, hi, hroom, -⟩
  rw [announced_written] at hi hroom
  rw [room_written p hnull] at hroom
  rw [toNat_count] at hi
  omega

theorem overruns_written (hnull : m.null = true) (hne : p.instructions ≠ []) :
    Overruns code m (writeObject p) := by
  have hpos := List.length_pos_iff.mpr hne
  refine ⟨0, ?_, ?_, ?_⟩
  · rw [announced_written, toNat_count]
    exact hpos
  · simp [Malloc.room, hnull]
  · rw [lineAt_written, List.getElem?_eq_getElem hpos]
    rfl

theorem givesBack_iff :
    GivesBack tool code m p ↔
      m.null = false ∨ tool ≠ .lib ∧ p.instructions = [] := by
  have hnonempty : writeObject p ≠ [] := by
    intro hnil
    have hget := fgets_written p
    rw [hnil] at hget
    cases hget
  constructor
  · rintro ⟨code', hread, -⟩
    cases hnull : m.null with
    | false => exact .inl rfl
    | true =>
      have hrefused : ¬ Refused tool m (writeObject p) := by
        intro hrefused
        obtain ⟨e, he⟩ := read_refused code hrefused
        rw [he] at hread
        cases hread
      refine .inr ⟨fun htool => hrefused ⟨htool, .inr hnull⟩, ?_⟩
      by_cases hne : p.instructions = []
      · exact hne
      · have hfull : Overruns code m (writeObject p) :=
          overruns_written hnull hne
        have hfault := read_overruns hrefused hfull
        rw [hfault] at hread
        cases hread
  · intro h
    have hrefused : ¬ Refused tool m (writeObject p) := by
      rintro ⟨rfl, hfile | hnull⟩
      · exact hnonempty hfile
      · rcases h with hmem | ⟨htool, -⟩
        · rw [hmem] at hnull
          cases hnull
        · exact htool rfl
    have hroom : ¬ Overruns code m (writeObject p) := by
      rcases h with hmem | ⟨-, hnil⟩
      · exact not_overruns_written p hmem
      · rintro ⟨i, hi, -⟩
        rw [announced_written, toNat_count, hnil] at hi
        cases hi
    obtain ⟨read, hread, hload, hcount, hprogram⟩ := read_done hrefused hroom
    rw [announced_written] at hcount hprogram
    rw [toNat_count] at hprogram
    refine ⟨read, hread, ?_, ?_, fun i inst hinst => ?_⟩
    · rw [hload, fileHeader_written]
    · rw [hcount, toNat_count]
    · have hline : lineAt (i + 1) (writeObject p) =
          some (instructionText inst ++ ['\n']) := by
        rw [lineAt_written, hinst]
        rfl
      obtain ⟨hlt, -⟩ := List.getElem?_eq_some_iff.mp hinst
      rw [hprogram i hlt _ hline, readInstruction_text]

end Files

/-- When the three tools agree on a program that was written, and for which
files a reader takes nothing but what the file says. -/
theorem objectFile_iff (tool : Tool) (code : ProgramBuf) (m : Malloc) :
    (∀ p, GivesBack tool code m p ↔
      m.null = false ∨ tool ≠ .lib ∧ p.instructions = []) ∧
    ∀ file, OnlyFromFile tool code m file ↔ Covered tool code m file :=
  ⟨fun _ => givesBack_iff, fun _ => onlyFromFile_iff⟩

/-- A header that announces one instruction, and nothing behind it. -/
theorem not_onlyFromFile_header :
    ¬ OnlyFromFile .lib ⟨0, 0, fun _ => {}⟩ ⟨false, fun _ => {}⟩
      "0x0 0x1\n".toList := by
  have hone : announced ⟨0, 0, fun _ => {}⟩ "0x0 0x1\n".toList = 1 := by
    decide
  have hline : lineAt 1 "0x0 0x1\n".toList = none := by
    decide
  rw [onlyFromFile_iff]
  rintro (⟨-, hfile | hnull⟩ | ⟨i, hi, -, hsome⟩ | h)
  · cases hfile
  · cases hnull
  · rw [hone] at hi
    obtain rfl : i = 0 := Nat.lt_one_iff.mp hi
    rw [hline] at hsome
    cases hsome
  · have hsome := h 0 (by rw [hone]; decide)
    rw [hline] at hsome
    cases hsome

end Coht.Mttn

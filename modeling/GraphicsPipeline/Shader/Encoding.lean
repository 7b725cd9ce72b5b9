import GraphicsPipeline.Word.Basic
import GraphicsPipeline.Shader.Program

/-!
# Encoding of programs

A program as bytes: a header of 32 bytes, one byte for each slot, and a record of 32 bytes for each
instruction. Reading trusts nothing: every byte of the header and of the records is looked at, but
for the operand words that an instruction does not use, and the program is checked again.
-/

namespace GraphicsPipeline

open LittleEndian

/-! ### Records -/

/-- The 32 bytes of an instruction: its opcode, three reserved bytes, its output register, five
operand words and four channel selectors. -/
structure Record where
  opcode : UInt8
  reserved : UInt8 × UInt8 × UInt8
  out : UInt32
  arg₀ : UInt32
  arg₁ : UInt32
  arg₂ : UInt32
  arg₃ : UInt32
  arg₄ : UInt32
  channels : Vec4 UInt8
deriving DecidableEq, Repr, Inhabited

/-- The word for a register or a slot that is not there. -/
def noWord : UInt32 := 0xffffffff

/-- The byte for a channel selector that is not used. -/
def noChannel : UInt8 := 0xff

namespace Record

def length : Nat := 32

def encode (r : Record) : Bytes :=
  [r.opcode, r.reserved.1, r.reserved.2.1, r.reserved.2.2] ++ LittleEndian.encode r.out ++
    LittleEndian.encode r.arg₀ ++ LittleEndian.encode r.arg₁ ++ LittleEndian.encode r.arg₂ ++
    LittleEndian.encode r.arg₃ ++ LittleEndian.encode r.arg₄ ++ r.channels.toList

/-- The record at the front of a string of bytes, and the rest. -/
def take? : Bytes → Option (Record × Bytes)
  | opcode :: r₀ :: r₁ :: r₂ :: bytes => do
    let (out, bytes) ← takeWord? bytes
    let (arg₀, bytes) ← takeWord? bytes
    let (arg₁, bytes) ← takeWord? bytes
    let (arg₂, bytes) ← takeWord? bytes
    let (arg₃, bytes) ← takeWord? bytes
    let (arg₄, bytes) ← takeWord? bytes
    match bytes with
    | x :: y :: z :: w :: rest =>
      some (⟨opcode, (r₀, r₁, r₂), out, arg₀, arg₁, arg₂, arg₃, arg₄, ⟨x, y, z, w⟩⟩, rest)
    | _ => none
  | _ => none

/-- A record of up to two operand words and no channels. -/
def plain (opcode : Opcode) (out : UInt32) (arg₀ arg₁ : UInt32) : Record :=
  ⟨opcode.code, (0, 0, 0), out, arg₀, arg₁, 0, 0, 0, .fill noChannel⟩

/-- A record of one operand word and four channels of registers. -/
def swizzled (opcode : Opcode) (out : UInt32) (arg₀ : UInt32) (parts : Vec4 Swizzle) : Record :=
  ⟨opcode.code, (0, 0, 0), out, arg₀, parts.x.reg, parts.y.reg, parts.z.reg, parts.w.reg,
    parts.map fun s => s.channel.code⟩

/-- The record of an instruction; what it does not use is zero, or marked as unused. -/
def ofInstr (i : Instr) : Record :=
  match i with
  | .mov4 out parts => swizzled i.opcode out 0 parts
  | .fmulSwizzle out a parts => swizzled i.opcode out a parts
  | .extract out a c =>
    ⟨i.opcode.code, (0, 0, 0), out, a, 0, 0, 0, 0, ⟨c.code, noChannel, noChannel, noChannel⟩⟩
  | .sin out a => plain i.opcode out a 0
  | .input out slot => plain i.opcode out slot 0
  | .output out slot => plain i.opcode out slot 0
  | .constInt out n => plain i.opcode out n 0
  | .copy out a => plain i.opcode out a 0
  | .sample out uv => plain i.opcode out uv 0
  | .fmul out a b => plain i.opcode out a b
  | .fadd out a b => plain i.opcode out a b
  | .iadd out a b => plain i.opcode out a b
  | .uniform out group index => plain i.opcode out group index
  | .constVec2 out x y => plain i.opcode out x.bits y.bits
  | .constVec4 out v =>
    ⟨i.opcode.code, (0, 0, 0), out, v.x.bits, v.y.bits, v.z.bits, v.w.bits, 0, .fill noChannel⟩
  | .store a slot => plain i.opcode noWord a slot

def channel (selector : UInt8) : Except Error Channel :=
  match Channel.ofCode? selector with
  | some c => .ok c
  | none => .error (.malformedBlob .channelSelector)

def swizzles (r : Record) : Except Error (Vec4 Swizzle) := do
  let c ← r.channels.mapM channel
  return ⟨⟨r.arg₁, c.x⟩, ⟨r.arg₂, c.y⟩, ⟨r.arg₃, c.z⟩, ⟨r.arg₄, c.w⟩⟩

/-- The number of channel selectors that a kind of instruction uses. -/
def selectorCount : Opcode → Nat
  | .mov4 | .fmulSwizzle => 4
  | .extract => 1
  | _ => 0

/-- The instruction of a record. Its registers and slots are not looked at. -/
def toInstr (r : Record) : Except Error Instr := do
  if r.reserved ≠ (0, 0, 0) then throw (.malformedBlob .reservedInstructionBits)
  let opcode ← match Opcode.ofCode? r.opcode with
    | some opcode => pure opcode
    | none => throw (.unknownOpcode r.opcode)
  if (r.channels.toList.drop (selectorCount opcode)).any (· ≠ noChannel) then
    throw (.malformedBlob .unexpectedChannel)
  if opcode ≠ .store ∧ r.out = noWord then throw (.malformedBlob .missingOutputRegister)
  match opcode with
  | .mov4 => return .mov4 r.out (← r.swizzles)
  | .fmulSwizzle => return .fmulSwizzle r.out r.arg₀ (← r.swizzles)
  | .extract => return .extract r.out r.arg₀ (← channel r.channels.x)
  | .sin => return .sin r.out r.arg₀
  | .fmul => return .fmul r.out r.arg₀ r.arg₁
  | .fadd => return .fadd r.out r.arg₀ r.arg₁
  | .iadd => return .iadd r.out r.arg₀ r.arg₁
  | .input => return .input r.out r.arg₀
  | .output => return .output r.out r.arg₀
  | .uniform => return .uniform r.out r.arg₀ r.arg₁
  | .constInt => return .constInt r.out r.arg₀
  | .constVec2 => return .constVec2 r.out ⟨r.arg₀⟩ ⟨r.arg₁⟩
  | .constVec4 => return .constVec4 r.out ⟨⟨r.arg₀⟩, ⟨r.arg₁⟩, ⟨r.arg₂⟩, ⟨r.arg₃⟩⟩
  | .copy => return .copy r.out r.arg₀
  | .sample => return .sample r.out r.arg₀
  | .store =>
    if r.out ≠ noWord then throw (.malformedBlob .storeWithOutputRegister)
    else return .store r.arg₀ r.arg₁

end Record

/-! ### Programs -/

namespace Program

def magic : Bytes := [0x53, 0x47, 0x50, 0x55]

def version : UInt32 := 1

def stageCode : Stage → UInt32
  | .fragment => 0
  | .vertex => 1

def encode (p : Program) : Bytes :=
  magic ++
    [version, stageCode p.stage, p.position.getD noWord, p.regCount, UInt32.ofNat p.inputs.length,
      UInt32.ofNat p.outputs.length, UInt32.ofNat p.instrs.length].flatMap LittleEndian.encode ++
    (p.inputs ++ p.outputs).map Arity.code ++
    p.instrs.flatMap fun i => (Record.ofInstr i).encode

/-- The bytes of a list of slots, of which there have to be enough, and the rest. -/
def takeSlots (count : UInt32) (bytes : Bytes) : Except Error (Bytes × Bytes) :=
  if bytes.length < count.toNat then .error (.malformedBlob .truncatedSlots)
  else .ok (bytes.splitAt count.toNat)

def decodeSlots (bytes : Bytes) : Except Error (List Arity) :=
  bytes.mapM fun b =>
    match Arity.ofCode? b with
    | some a => .ok a
    | none => .error (.malformedBlob .slotArity)

/-- As many instructions as given, which fill the bytes. -/
def decodeInstrs : (count : Nat) → Bytes → Except Error (List Instr)
  | 0, _ => .ok []
  | count + 1, bytes =>
    match Record.take? bytes with
    | none => .error (.malformedBlob .instructionCount)
    | some (record, bytes) => do
      let i ← record.toInstr
      let rest ← decodeInstrs count bytes
      return i :: rest

/-- The position is there exactly in programs of the vertex stage. -/
def decodePosition (stage position : UInt32) : Except Error (Option UInt32) :=
  let position := if position = noWord then none else some position
  if stage = 0 ∧ position.isNone ∨ stage = 1 ∧ position.isSome then .ok position
  else .error (.malformedBlob .stage)

/-- The program after the header, whose words are given. -/
def decodeBody (stage position regCount inputCount outputCount instrCount : UInt32)
    (bytes : Bytes) : Except Error Program := do
  let (inputs, bytes) ← takeSlots inputCount bytes
  let (outputs, bytes) ← takeSlots outputCount bytes
  let inputs ← decodeSlots inputs
  let outputs ← decodeSlots outputs
  if bytes.length ≠ Record.length * instrCount.toNat then throw (.malformedBlob .instructionCount)
  let instrs ← decodeInstrs instrCount.toNat bytes
  let position ← decodePosition stage position
  check { inputs, outputs, position, regCount, instrs }

def decode (bytes : Bytes) : Except Error Program :=
  match takeWords? 7 (bytes.drop magic.length) with
  | some ([found, stage, position, regCount, inputCount, outputCount, instrCount], body) =>
    if bytes.take magic.length ≠ magic then .error (.badMagic .shader)
    else if found ≠ version then .error (.versionMismatch found version)
    else decodeBody stage position regCount inputCount outputCount instrCount body
  | _ => .error (.malformedBlob .truncatedHeader)

end Program

/-- The bytes of a draft's program, and the draft, which takes no further edits. -/
def Draft.compile (d : Draft) : Except Error (Bytes × Draft) := do
  let d ← d.opened
  let p ← d.lower
  return (p.encode, { d with finalized := true })

end GraphicsPipeline

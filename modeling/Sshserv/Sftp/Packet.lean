import Mathlib

/-!
# Packets on the wire

The requests of `packet.go`: how a client writes them, how `makePacket` reads
them and how `serveLoop` takes them off a connection that may break at any
byte.
-/

namespace Sshserv.Sftp

abbrev Bytes := List UInt8

def marshalUint32 (v : UInt32) : Bytes :=
  [.ofNat (v.toNat / 2 ^ 24), .ofNat (v.toNat / 2 ^ 16), .ofNat (v.toNat / 2 ^ 8), .ofNat v.toNat]

def marshalUint64 (v : UInt64) : Bytes :=
  marshalUint32 (.ofNat (v.toNat / 2 ^ 32)) ++ marshalUint32 (.ofNat v.toNat)

def marshalString (v : Bytes) : Bytes :=
  marshalUint32 (.ofNat v.length) ++ v

/-- The bytes of a number do not overlap, so that `|` adds them up. -/
def unmarshalUint32Safe : Bytes → Option (UInt32 × Bytes)
  | first :: second :: third :: last :: b =>
    some (.ofNat (first.toNat * 2 ^ 24 + second.toNat * 2 ^ 16 + third.toNat * 2 ^ 8 + last.toNat),
      b)
  | _ => none

def unmarshalUint64Safe (b : Bytes) : Option (UInt64 × Bytes) := do
  let (h, b) ← unmarshalUint32Safe b
  let (l, b) ← unmarshalUint32Safe b
  return (.ofNat (h.toNat * 2 ^ 32 + l.toNat), b)

def unmarshalStringSafe (b : Bytes) : Option (Bytes × Bytes) := do
  let (n, b) ← unmarshalUint32Safe b
  if n.toNat > b.length then none else return (b.take n.toNat, b.drop n.toNat)

variable {b rest : Bytes}

@[simp]
theorem unmarshalUint32Safe_eq_some {v : UInt32} :
    unmarshalUint32Safe b = some (v, rest) ↔ b = marshalUint32 v ++ rest := by
  unfold unmarshalUint32Safe marshalUint32
  split
  · next first second third last b =>
    simp only [Option.some.injEq, Prod.mk.injEq, List.cons_append, List.nil_append,
      List.cons.injEq, ← UInt32.toNat_inj, ← UInt8.toNat_inj, UInt32.toNat_ofNat',
      UInt8.toNat_ofNat', ← and_assoc]
    refine and_congr_left fun _ => ?_
    have := v.toNat_lt
    have := first.toNat_lt
    have := second.toNat_lt
    have := third.toNat_lt
    have := last.toNat_lt
    omega
  · next short =>
    simp only [reduceCtorEq, false_iff]
    rintro rfl
    exact short _ _ _ _ _ rfl

@[simp]
theorem unmarshalUint64Safe_eq_some {v : UInt64} :
    unmarshalUint64Safe b = some (v, rest) ↔ b = marshalUint64 v ++ rest := by
  simp only [unmarshalUint64Safe, marshalUint64, Option.bind_eq_bind, Option.bind_eq_some_iff,
    Prod.exists, unmarshalUint32Safe_eq_some, Option.pure_def, Option.some.injEq, Prod.mk.injEq]
  have halves : ∀ h l : UInt32, UInt64.ofNat (h.toNat * 2 ^ 32 + l.toNat) = v ↔
      h = .ofNat (v.toNat / 2 ^ 32) ∧ l = .ofNat v.toNat := by
    intro h l
    simp only [← UInt64.toNat_inj, ← UInt32.toNat_inj, UInt64.toNat_ofNat', UInt32.toNat_ofNat']
    have := h.toNat_lt
    have := l.toNat_lt
    have := v.toNat_lt
    omega
  constructor
  · rintro ⟨h, _, rfl, l, _, rfl, value, rfl⟩
    obtain ⟨rfl, rfl⟩ := (halves h l).mp value
    rw [List.append_assoc]
  · rintro rfl
    exact ⟨_, _, List.append_assoc .., _, _, rfl, (halves _ _).mpr ⟨rfl, rfl⟩, rfl⟩

@[simp]
theorem unmarshalStringSafe_eq_some {v : Bytes} :
    unmarshalStringSafe b = some (v, rest) ↔ v.length < 2 ^ 32 ∧ b = marshalString v ++ rest := by
  simp only [unmarshalStringSafe, marshalString, Option.bind_eq_bind, Option.bind_eq_some_iff,
    Prod.exists, unmarshalUint32Safe_eq_some, Option.pure_def, Option.ite_none_left_eq_some,
    Option.some.injEq, Prod.mk.injEq, not_lt]
  constructor
  · rintro ⟨n, b, rfl, enough, rfl, rfl⟩
    rw [List.length_take_of_le enough]
    exact ⟨n.toNat_lt, by simp⟩
  · rintro ⟨short, rfl⟩
    have length : (UInt32.ofNat v.length).toNat = v.length := UInt32.toNat_ofNat_of_lt' short
    exact ⟨_, _, List.append_assoc .., by simp [length], by simp [length], by simp [length]⟩

inductive Value where
  | uint32 (v : UInt32) | uint64 (v : UInt64) | string (v : Bytes) | raw (v : Bytes)
  deriving DecidableEq

def Value.marshal : Value → Bytes
  | uint32 v => marshalUint32 v
  | uint64 v => marshalUint64 v
  | string v => marshalString v
  | raw v => v

def marshal (values : List Value) : Bytes :=
  values.flatMap Value.marshal

/-- `data` is that of a write packet, with its length. -/
inductive Field where
  | uint32 | uint64 | string | data

def Field.unmarshal : Field → Bytes → Option (Value × Bytes)
  | uint32, b => (unmarshalUint32Safe b).map (Prod.map .uint32 id)
  | uint64, b => (unmarshalUint64Safe b).map (Prod.map .uint64 id)
  | string, b => (unmarshalStringSafe b).map (Prod.map .string id)
  | data, b => do
    let (n, b) ← unmarshalUint32Safe b
    if UInt32.ofNat b.length < n then none else return (.string (b.take n.toNat), b.drop n.toNat)

def unmarshal : List Field → Bytes → Option (List Value × Bytes)
  | [], b => some ([], b)
  | field :: fields, b => do
    let (value, b) ← field.unmarshal b
    let (values, b) ← unmarshal fields b
    return (value :: values, b)

def unmarshalExtensions : Nat → Bytes → Option (List Value)
  | 0, _ => some []
  | fuel + 1, b =>
    if b = [] then some []
    else do
      let (pair, b) ← unmarshal [.string, .string] b
      let more ← unmarshalExtensions fuel b
      return pair ++ more

/-- What becomes of the bytes behind the fields. -/
inductive Tail where
  | ignored | attrs | extensions

def Tail.unmarshal : Tail → Bytes → Option (List Value)
  | ignored, _ => some []
  | attrs, b => some [.raw b]
  | extensions, b => unmarshalExtensions b.length b

structure Layout where
  fields : List Field
  tail : Tail

def Layout.unmarshalBinary (l : Layout) (b : Bytes) : Option (List Value) := do
  let (values, b) ← unmarshal l.fields b
  let more ← l.tail.unmarshal b
  return values ++ more

def layout : UInt8 → Option Layout
  | 1 => some ⟨[.uint32], .extensions⟩ -- init
  | 3 => some ⟨[.uint32, .string, .uint32, .uint32], .ignored⟩ -- open
  -- close, lstat, fstat, opendir, readdir, remove, rmdir, realpath, stat, readlink
  | 4 | 7 | 8 | 11 | 12 | 13 | 15 | 16 | 17 | 19 => some ⟨[.uint32, .string], .ignored⟩
  | 5 => some ⟨[.uint32, .string, .uint64, .uint32], .ignored⟩ -- read
  | 6 => some ⟨[.uint32, .string, .uint64, .data], .ignored⟩ -- write
  | 9 | 10 => some ⟨[.uint32, .string, .uint32], .attrs⟩ -- setstat, fsetstat
  | 14 => some ⟨[.uint32, .string, .uint32], .ignored⟩ -- mkdir
  | 18 | 20 => some ⟨[.uint32, .string, .string], .ignored⟩ -- rename, symlink
  | 200 => some ⟨[.uint32, .string], .ignored⟩ -- extended
  | _ => none

def ascii (text : String) : Bytes :=
  text.toList.map fun c => .ofNat c.toNat

/-- The fields behind the name of an extended request. -/
def specificPacket (request : Bytes) : Option (List Field) :=
  if request = ascii "statvfs@openssh.com" then some [.string]
  else if request = ascii "posix-rename@openssh.com" then some [.string, .string]
  else if request = ascii "hardlink@openssh.com" then some [.string, .string]
  else none

structure WirePacket where
  pktType : UInt8
  values : List Value
  deriving DecidableEq

inductive PacketError where
  | short
  | unhandled (pktType : UInt8)
  | unknownExtended (pkt : WirePacket)

def makeExtended (b : Bytes) : List Value → Except PacketError WirePacket
  | [id, .string request] =>
    match specificPacket request with
    | none => .error (.unknownExtended ⟨200, [id, .string request]⟩)
    | some fields =>
      -- the specific packet reads the ID and the name once more
      match Layout.unmarshalBinary ⟨.uint32 :: .string :: fields, .ignored⟩ b with
      | none => .error .short
      | some values => .ok ⟨200, values⟩
  | _ => .error .short

def makePacket (pktType : UInt8) (b : Bytes) : Except PacketError WirePacket :=
  match layout pktType with
  | none => .error (.unhandled pktType)
  | some l =>
    match l.unmarshalBinary b with
    | none => .error .short
    | some values => if pktType = 200 then makeExtended b values else .ok ⟨pktType, values⟩

def Field.Admits : Field → Value → Prop
  | uint32, .uint32 _ | uint64, .uint64 _ => True
  | string, .string v | data, .string v => v.length < 2 ^ 32
  | _, _ => False

def Tail.Admits : Tail → List Value → Prop
  | ignored, more => more = []
  | attrs, more => ∃ b, more = [.raw b]
  | extensions, more => more.length % 2 = 0 ∧ ∀ value ∈ more, Field.string.Admits value

/-- The fields are of their kinds, and the bytes are those of the fields; what follows them is
ignored, unless the tail takes it. -/
structure Layout.Reads (l : Layout) (b : Bytes) (values : List Value) : Prop where
  admits : ∃ first more, values = first ++ more ∧ List.Forall₂ Field.Admits l.fields first ∧
    l.tail.Admits more
  bytes : ∃ rest, b = marshal values ++ rest ∧ (l.tail ≠ .ignored → rest = [])

section Small

variable (small : b.length < 2 ^ 32)
include small

/-- The length of what is left is not cut off. -/
theorem unmarshal_data : Field.data.unmarshal b = Field.string.unmarshal b := by
  simp only [Field.unmarshal, unmarshalStringSafe]
  rcases got : unmarshalUint32Safe b with _ | ⟨n, later⟩
  · rfl
  have length := congrArg List.length (unmarshalUint32Safe_eq_some.mp got)
  rw [List.length_append] at length
  have kept : (UInt32.ofNat later.length).toNat = later.length := by
    rw [UInt32.toNat_ofNat']
    omega
  simp only [Option.bind_eq_bind, Option.bind_some, UInt32.lt_iff_toNat_lt, kept, gt_iff_lt]
  split <;> rfl

theorem Field.unmarshal_eq_some {field : Field} {v : Value} :
    field.unmarshal b = some (v, rest) ↔ field.Admits v ∧ b = v.marshal ++ rest := by
  cases field with
  | data =>
    rw [unmarshal_data small]
    cases v <;> simp [unmarshal, Admits, Value.marshal, Prod.map]
  | _ => cases v <;> simp [unmarshal, Admits, Value.marshal, Prod.map]

theorem unmarshal_eq_some {fields : List Field} {values : List Value} :
    unmarshal fields b = some (values, rest) ↔
      List.Forall₂ Field.Admits fields values ∧ b = marshal values ++ rest := by
  induction fields generalizing b values rest with
  | nil => cases values <;> simp [unmarshal, marshal, eq_comm]
  | cons field fields ih =>
    simp only [unmarshal, Option.bind_eq_bind, Option.bind_eq_some_iff, Prod.exists,
      Option.pure_def, Option.some.injEq, Prod.mk.injEq, Field.unmarshal_eq_some small]
    constructor
    · rintro ⟨value, later, ⟨first, rfl⟩, more, _, got, rfl, rfl⟩
      obtain ⟨others, rfl⟩ := (ih (small.trans_le' (by simp))).mp got
      exact ⟨.cons first others, by simp [marshal]⟩
    · rintro ⟨first | ⟨first, others⟩, rfl⟩
      rw [marshal, List.flatMap_cons, List.append_assoc, List.length_append] at small
      exact ⟨_, _, ⟨first, List.append_assoc ..⟩, _, rest,
        (ih ((Nat.le_add_left ..).trans_lt small)).mpr ⟨others, rfl⟩, rfl, rfl⟩

theorem unmarshalExtensions_eq_some {fuel : Nat} {values : List Value} (enough : b.length ≤ fuel) :
    unmarshalExtensions fuel b = some values ↔
      Tail.extensions.Admits values ∧ b = marshal values := by
  have long : ∀ {value : Value}, Field.string.Admits value → 4 ≤ value.marshal.length := by
    intro value admitted
    cases value <;> simp [Field.Admits, Value.marshal, marshalString, marshalUint32] at admitted ⊢
  have done : ∀ values, some [] = some values ↔
      Tail.extensions.Admits values ∧ [] = marshal values := by
    intro values
    cases values with
    | nil => simp [Tail.Admits, marshal]
    | cons value more =>
      simp only [Option.some.injEq, reduceCtorEq, false_iff]
      rintro ⟨⟨_, strings⟩, none⟩
      have least := long (strings value List.mem_cons_self)
      have length := congrArg List.length none
      simp only [marshal, List.flatMap_cons, List.length_append, List.length_nil] at length
      omega
  induction fuel generalizing b values with
  | zero =>
    obtain rfl := List.length_eq_zero_iff.mp (Nat.le_zero.mp enough)
    exact done values
  | succ fuel ih =>
    rw [unmarshalExtensions]
    by_cases empty : b = []
    · subst empty
      exact done values
    simp only [empty, if_false, Option.bind_eq_bind, Option.bind_eq_some_iff, Prod.exists,
      Option.pure_def, Option.some.injEq, unmarshal_eq_some small]
    constructor
    · rintro ⟨_, later, ⟨_ | ⟨name, _ | ⟨data, ⟨⟩⟩⟩, rfl⟩, more, got, rfl⟩
      have shorter := long data
      simp only [marshal, List.flatMap_cons, List.length_append] at enough small
      obtain ⟨⟨even, strings⟩, rfl⟩ := (ih (by omega) (by omega)).mp got
      exact ⟨⟨by simp; omega, by simpa [name, data] using strings⟩, by simp [marshal]⟩
    · rintro ⟨⟨even, strings⟩, rfl⟩
      rcases values with _ | ⟨value, _ | ⟨other, more⟩⟩
      · exact absurd rfl empty
      · simp at even
      simp only [List.forall_mem_cons, List.length_cons] at strings even
      obtain ⟨name, data, strings⟩ := strings
      have shorter := long data
      have less : (marshal more).length ≤ fuel ∧ (marshal more).length < 2 ^ 32 := by
        simp only [marshal, List.flatMap_cons, List.length_append] at enough small ⊢
        omega
      exact ⟨[value, other], marshal more, ⟨by simp [name, data], by simp [marshal]⟩, more,
        (ih less.2 less.1).mpr ⟨⟨by omega, strings⟩, rfl⟩, rfl⟩

theorem Layout.unmarshalBinary_eq_some {l : Layout} {values : List Value} :
    l.unmarshalBinary b = some values ↔ l.Reads b values := by
  have tail : ∀ {later : Bytes} {more : List Value}, later.length < 2 ^ 32 →
      (l.tail.unmarshal later = some more ↔ l.tail.Admits more ∧
        ∃ rest, later = marshal more ++ rest ∧ (l.tail ≠ .ignored → rest = [])) := by
    intro later more smaller
    cases l.tail with
    | ignored => cases more <;> simp [Tail.unmarshal, Tail.Admits, marshal]
    | attrs =>
      constructor
      · rintro ⟨⟩
        exact ⟨⟨later, rfl⟩, [], by simp [marshal, Value.marshal], fun _ => rfl⟩
      · rintro ⟨⟨_, rfl⟩, rest, rfl, none⟩
        simp [Tail.unmarshal, marshal, Value.marshal, none]
    | extensions => simp [Tail.unmarshal, unmarshalExtensions_eq_some smaller le_rfl]
  simp only [unmarshalBinary, Option.bind_eq_bind, Option.bind_eq_some_iff, Prod.exists,
    Option.pure_def, Option.some.injEq, unmarshal_eq_some small]
  constructor
  · rintro ⟨first, _, ⟨fields, rfl⟩, more, got, rfl⟩
    obtain ⟨admitted, rest, rfl, none⟩ := (tail (small.trans_le' (by simp))).mp got
    exact ⟨⟨first, more, rfl, fields, admitted⟩, rest, by simp [marshal], none⟩
  · rintro ⟨⟨first, more, rfl, fields, admitted⟩, rest, rfl, none⟩
    exact ⟨first, marshal more ++ rest, ⟨fields, by simp [marshal]⟩, more,
      (tail (small.trans_le' (by simp [marshal]))).mpr ⟨admitted, rest, rfl, none⟩, rfl⟩

end Small

/-- The packet goes on to the workers; an unknown extended request does too. -/
def Accepts (pktType : UInt8) (b : Bytes) (p : WirePacket) : Prop :=
  makePacket pktType b = .ok p ∨ makePacket pktType b = .error (.unknownExtended p)

/-- A specific packet starts with the ID and the name as well. -/
def extendedLayout (request : Bytes) : Layout :=
  ⟨.uint32 :: .string :: (specificPacket request).getD [], .ignored⟩

theorem makePacket_accepts_iff {pktType : UInt8} {p : WirePacket} (small : b.length < 2 ^ 32) :
    Accepts pktType b p ↔ pktType = p.pktType ∧
      if pktType = 200 then ∃ id request,
        Layout.Reads ⟨[.uint32, .string], .ignored⟩ b [id, .string request] ∧
          (extendedLayout request).Reads b p.values
      else ∃ l ∈ layout pktType, l.Reads b p.values := by
  obtain ⟨kind, values⟩ := p
  simp only [← Layout.unmarshalBinary_eq_some small, Accepts, makePacket]
  by_cases extended : pktType = 200
  · subst extended
    simp only [layout, if_true]
    cases got : Layout.unmarshalBinary ⟨[.uint32, .string], .ignored⟩ b with
    | none => simp
    | some read =>
      obtain ⟨⟨_, _, rfl, _ | @⟨_, id, _, _, _, _ | @⟨_, value, _, _, text, ⟨⟩⟩⟩, rfl⟩, -⟩ :=
        (Layout.unmarshalBinary_eq_some small).mp got
      match value, text with
      | .string request, _ =>
        cases known : specificPacket request with
        | none => simp [makeExtended, extendedLayout, known, got]
        | some fields =>
          cases again : Layout.unmarshalBinary ⟨.uint32 :: .string :: fields, .ignored⟩ b <;>
            simp [makeExtended, extendedLayout, known, again]
  · cases layout pktType with
    | none => simp [extended]
    | some l => cases got : l.unmarshalBinary b <;> simp [got, extended]

/-- A write packet with two bytes of data, and one that has lost the second. -/
theorem write_packet_accepted :
    let b := marshalUint32 1 ++ marshalString [65] ++ marshalUint64 0 ++ marshalString [98, 99]
    (∃ p, Accepts 6 b p) ∧ ¬ ∃ p, Accepts 6 b.dropLast p := by
  refine ⟨⟨⟨6, [.uint32 1, .string [65], .uint64 0, .string [98, 99]]⟩, ?_⟩, ?_⟩
  · exact (makePacket_accepts_iff (by decide)).mpr
      ⟨rfl, _, rfl, ⟨_, [], (List.append_nil _).symm, by simp [Field.Admits], rfl⟩, [], rfl, nofun⟩
  · rintro ⟨p, made | made⟩
    · cases made
    · cases made

def maxMsgLength : Nat := 256 * 1024

inductive LoopError where
  | eof | unexpectedEOF | longPacket | outOfFuel
  | packet (err : PacketError)

/-- The error of `io.ReadFull` when the connection ends too early. -/
def ended (r : Bytes) : LoopError :=
  if r = [] then .eof else .unexpectedEOF

def recvPacket (r : Bytes) : Except LoopError (UInt8 × Bytes × Bytes) :=
  match unmarshalUint32Safe r with
  | none => .error (ended r)
  | some (length, r) =>
    if length.toNat > maxMsgLength then .error .longPacket
    else if length = 0 then .error (.packet .short)
    else if r.length < length.toNat then .error (ended r)
    else .ok (r.headD 0, (r.take length.toNat).tail, r.drop length.toNat)

/-- What goes to `pktChan`, and the error at the end; `r` is all that the client sends. -/
def serveLoop : Nat → Bytes → List WirePacket × LoopError
  | 0, _ => ([], .outOfFuel)
  | fuel + 1, r =>
    match recvPacket r with
    | .error err => ([], err)
    | .ok (pktType, pktBytes, r) =>
      match makePacket pktType pktBytes with
      | .ok p | .error (.unknownExtended p) =>
        let (later, err) := serveLoop fuel r
        (p :: later, err)
      | .error err => ([], .packet err)

variable {r later : Bytes} {pktType : UInt8}

theorem recvPacket_eq_ok :
    recvPacket r = .ok (pktType, b, later) ↔
      b.length < maxMsgLength ∧ r = marshalString (pktType :: b) ++ later := by
  have short : b.length < maxMsgLength → (pktType :: b).length < 2 ^ 32 := by
    simp only [maxMsgLength, List.length_cons]
    omega
  have read : recvPacket r = .ok (pktType, b, later) ↔
      b.length < maxMsgLength ∧ unmarshalStringSafe r = some (pktType :: b, later) := by
    unfold recvPacket unmarshalStringSafe
    rcases unmarshalUint32Safe r with _ | ⟨length, r⟩
    · simp
    have zero : length = 0 ↔ length.toNat = 0 := UInt32.toNat_inj.symm
    simp only [zero, Option.bind_eq_bind, Option.bind_some]
    generalize length.toNat = n
    rcases n with _ | n
    · simp
    rcases Nat.lt_or_ge r.length (n + 1) with missing | enough
    · simp only [missing, if_true, gt_iff_lt]
      split_ifs <;> simp
    obtain ⟨first, r, rfl⟩ := List.exists_cons_of_length_pos (Nat.zero_lt_of_lt enough)
    have length : (r.take n).length = n := List.length_take_of_le (Nat.le_of_succ_le_succ enough)
    simp only [enough.not_gt, if_false]
    constructor
    · intro taken
      split_ifs at taken with long
      cases taken
      exact ⟨by simpa [length] using long, rfl⟩
    · rintro ⟨bound, ⟨⟩⟩
      rw [length] at bound
      simp [bound.not_ge]
  rw [read, unmarshalStringSafe_eq_some]
  exact and_congr_right fun bound => and_iff_right (short bound)

theorem recvPacket_eq_eof :
    recvPacket r = .error .eof ↔ r = [] ∨ ∃ length : UInt32, length ≠ 0 ∧
      length.toNat ≤ maxMsgLength ∧ r = marshalUint32 length := by
  unfold recvPacket ended
  rcases got : unmarshalUint32Safe r with _ | ⟨length, later⟩
  · have headless : ∀ length : UInt32, r ≠ marshalUint32 length := by
      rintro length rfl
      cases got.symm.trans (unmarshalUint32Safe_eq_some.mpr (List.append_nil _).symm)
    simp [headless]
  · obtain rfl := unmarshalUint32Safe_eq_some.mp got
    dsimp only
    constructor
    · intro eof
      split_ifs at eof with long zero missing empty <;> cases eof
      exact .inr ⟨length, zero, not_lt.mp long, by simp [empty]⟩
    · rintro (none | ⟨other, nonzero, small, same⟩)
      · cases none
      have whole := unmarshalUint32Safe_eq_some.mpr (List.append_nil (marshalUint32 other)).symm
      rw [← same, got] at whole
      cases whole
      have more : 0 < length.toNat := by
        rw [Nat.pos_iff_ne_zero]
        exact fun zero => nonzero (UInt32.toNat_inj.mp zero)
      simp [small.not_gt, nonzero, more]

theorem recvPacket_ends {err : LoopError} (failed : recvPacket r = .error err) :
    err ≠ .outOfFuel := by
  rintro rfl
  unfold recvPacket ended at failed
  split at failed
  · split_ifs at failed <;> cases failed
  · split_ifs at failed <;> cases failed

/-- A frame with a packet that goes on to the workers. -/
def Carries (frame : Bytes) (p : WirePacket) : Prop :=
  ∃ pktType b, frame = marshalString (pktType :: b) ∧ b.length < maxMsgLength ∧ Accepts pktType b p

/-- The frames from the beginning of the input go on, up to the first that does not carry a packet.
The end of the input is regular behind a frame, and also behind the length of a frame. -/
structure Served (r : Bytes) (frames : List Bytes) (rest : Bytes)
    (result : List WirePacket × LoopError) : Prop where
  split : r = frames.flatten ++ rest
  carried : List.Forall₂ Carries frames result.1
  stuck : ∀ frame p, Carries frame p → ¬ frame <+: rest
  ends : result.2 ≠ .outOfFuel
  regular : result.2 = .eof ↔ rest = [] ∨ ∃ length : UInt32, length ≠ 0 ∧
    length.toNat ≤ maxMsgLength ∧ rest = marshalUint32 length

theorem serveLoop_exact {fuel : Nat} (enough : r.length < fuel) :
    ∃ frames rest, Served r frames rest (serveLoop fuel r) := by
  induction fuel generalizing r with
  | zero => omega
  | succ fuel ih =>
    have next : ∀ {pktType b later p}, recvPacket r = .ok (pktType, b, later) →
        Accepts pktType b p → ∃ frames rest,
          Served r frames rest (p :: (serveLoop fuel later).1, (serveLoop fuel later).2) := by
      intro pktType b later p got accepted
      obtain ⟨short, rfl⟩ := recvPacket_eq_ok.mp got
      have shorter : later.length < fuel := by
        simp [marshalString] at enough
        omega
      obtain ⟨frames, rest, rfl, carried, stuck, ends, regular⟩ := ih shorter
      exact ⟨marshalString (pktType :: b) :: frames, rest, by simp,
        .cons ⟨pktType, b, rfl, short, accepted⟩ carried, stuck, ends, regular⟩
    have stop : ∀ {err}, (∀ pktType b later p, recvPacket r = .ok (pktType, b, later) →
        ¬ Accepts pktType b p) → err ≠ .outOfFuel → (err = .eof ↔ recvPacket r = .error .eof) →
        ∃ frames rest, Served r frames rest ([], err) := by
      intro err refused ends regular
      refine ⟨[], r, rfl, .nil, ?_, ends, regular.trans recvPacket_eq_eof⟩
      rintro _ p ⟨pktType, b, rfl, short, accepted⟩ ⟨later, rfl⟩
      exact refused _ _ later p (recvPacket_eq_ok.mpr ⟨short, rfl⟩) accepted
    rw [serveLoop]
    cases got : recvPacket r with
    | error err => exact stop (by simp [got]) (recvPacket_ends got) (by simp [got])
    | ok packet =>
      obtain ⟨pktType, b, later⟩ := packet
      dsimp only
      split
      · next made => exact next got (.inl made)
      · next made => exact next got (.inr made)
      · next err known made =>
        refine stop ?_ (by simp) (by simp [got])
        rintro _ _ _ p same accepted
        cases got.symm.trans same
        rcases accepted with accepted | accepted
        · cases made.symm.trans accepted
        · cases made.symm.trans accepted
          exact known p rfl

/-- A close packet and the length of another packet. -/
theorem length_alone_ends :
    let r := marshalString (4 :: marshalUint32 1 ++ marshalString [65]) ++ marshalUint32 5
    serveLoop 19 r = ([⟨4, [.uint32 1, .string [65]]⟩], .eof) ∧
      ∃ frames rest, Served r frames rest (serveLoop 19 r) :=
  ⟨by rfl, serveLoop_exact (by decide)⟩

end Sshserv.Sftp

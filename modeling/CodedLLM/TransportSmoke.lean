import CodedLLM.ByteStreams
/-!
# TransportSmoke — framed shards over connections

The frames of `scripts/transport_smoke.py`: a header that says how many bytes of payload follow, or that the reader
should stop.  A connection stands for all the bytes that are sent on it; how many of them one `recv` returns is the
network's choice.
-/
namespace CodedLLM
namespace TransportSmoke

open ByteStreams

inductive PyExn where
  | connectionError (text : String)
  | structError
  | valueError (text : String)
  | overflowError
  | osError
  | runtimeError (text : String)
  deriving DecidableEq, Repr

def headerWidths : List Nat := [4, 4, 1, 4]

def headerSize : Nat := headerWidths.sum

def closeFlags : Nat := 255

def recvExact (wish : Nat → Nat) (count : Nat) (conn : List UInt8) : Except PyExn (List UInt8 × List UInt8) :=
  match gather wish count 0 [] conn with
  | some r => .ok r
  | none   => .error (.connectionError "peer closed framed transfer")

structure Header where
  request : Nat
  shard : Nat
  flags : Nat
  size : Nat
  deriving DecidableEq, Repr

def packHeader (h : Header) : Except PyExn (List UInt8) :=
  match packFields headerWidths [h.request, h.shard, h.flags, h.size] with
  | some bytes => .ok bytes
  | none       => .error .structError

def unpackHeader (bytes : List UInt8) : Except PyExn Header :=
  match unpackFields headerWidths bytes with
  | some [request, shard, flags, size] => .ok ⟨request, shard, flags, size⟩
  | _                                  => .error .structError

def sendFrame (request shard flags : Nat) (payload : List UInt8) : Except PyExn (List UInt8) :=
  (packHeader ⟨request, shard, flags, payload.length⟩).map (· ++ payload)

structure Frame where
  request : Nat
  shard : Nat
  payload : List UInt8
  deriving DecidableEq, Repr

/-- What both `_serve` loops do with a connection first; `none` ends the loop. -/
def readFrame (wish wish' : Nat → Nat) (conn : List UInt8) : Except PyExn (Option Frame) := do
  let (head, rest) ← recvExact wish headerSize conn
  let h ← unpackHeader head
  if h.flags = closeFlags then
    return none
  else
    let (payload, _) ← recvExact wish' h.size rest
    return some ⟨h.request, h.shard, payload⟩

/-! ## Frames -/

theorem recvExact_eq (wish : Nat → Nat) (count : Nat) (conn : List UInt8) :
    recvExact wish count conn =
      if count ≤ conn.length then .ok (conn.take count, conn.drop count)
      else .error (.connectionError "peer closed framed transfer") := by
  rw [recvExact, gather_eq wish count 0 [] conn (Nat.zero_le count), List.length_nil, Nat.zero_add, Nat.sub_zero,
    List.nil_append]
  by_cases h : count ≤ conn.length
  · rw [if_pos h, if_pos h]
  · rw [if_neg h, if_neg h]

theorem recvExact_append (wish : Nat → Nat) (data rest : List UInt8) :
    recvExact wish data.length (data ++ rest) = .ok (data, rest) := by
  rw [recvExact_eq, if_pos (by simp), List.take_left' rfl, List.drop_left' rfl]

theorem packHeader_ok {h : Header} {bytes : List UInt8} (hpack : packHeader h = .ok bytes) :
    bytes.length = headerSize ∧ unpackHeader bytes = .ok h := by
  rw [packHeader] at hpack
  split at hpack
  case h_1 bytes' heq =>
    obtain rfl := Except.ok.inj hpack
    refine ⟨length_of_packFields heq, ?_⟩
    rw [unpackHeader, (packFields_iff _ _ _).1 heq]
  case h_2 => cases hpack

theorem unpackHeader_ok {h : Header} {bytes : List UInt8} (hunpack : unpackHeader bytes = .ok h) :
    packHeader h = .ok bytes := by
  rw [unpackHeader] at hunpack
  split at hunpack
  case h_1 request shard flags size heq =>
    obtain rfl := Except.ok.inj hunpack
    rw [packHeader, (packFields_iff _ _ _).2 heq]
  case h_2 => cases hunpack

def Header.Fits (h : Header) : Prop := h.request < 2 ^ 32 ∧ h.shard < 2 ^ 32 ∧ h.flags < 2 ^ 8 ∧ h.size < 2 ^ 32

instance (h : Header) : Decidable h.Fits := inferInstanceAs (Decidable (_ ∧ _))

theorem packHeader_eq (h : Header) :
    packHeader h = if h.Fits then
      .ok (bigEndian 4 h.request ++ (bigEndian 4 h.shard ++ (bigEndian 1 h.flags ++ bigEndian 4 h.size)))
    else .error .structError := by
  unfold packHeader headerWidths Header.Fits
  simp only [packFields]
  norm_num
  by_cases h1 : h.request < 4294967296 <;> by_cases h2 : h.shard < 4294967296 <;> by_cases h3 : h.flags < 256 <;>
    by_cases h4 : h.size < 4294967296 <;> simp [h1, h2, h3, h4]

theorem sendFrame_ok {request shard flags : Nat} {payload : List UInt8}
    (h : Header.Fits ⟨request, shard, flags, payload.length⟩) :
    ∃ head, packHeader ⟨request, shard, flags, payload.length⟩ = .ok head ∧
      sendFrame request shard flags payload = .ok (head ++ payload) := by
  have hpack := packHeader_eq ⟨request, shard, flags, payload.length⟩
  rw [if_pos h] at hpack
  refine ⟨_, hpack, ?_⟩
  rw [sendFrame, hpack]
  rfl

theorem sendFrame_error {request shard flags : Nat} {payload : List UInt8}
    (h : ¬ Header.Fits ⟨request, shard, flags, payload.length⟩) :
    sendFrame request shard flags payload = .error .structError := by
  rw [sendFrame, packHeader_eq, if_neg h]
  rfl

theorem exists_header (conn : List UInt8) :
    conn.length < headerSize ∨ ∃ h head rest, packHeader h = .ok head ∧ conn = head ++ rest := by
  by_cases hlen : conn.length < headerSize
  · exact .inl hlen
  · right
    have htake : (conn.take headerSize).length = headerWidths.sum := List.length_take_of_le (Nat.not_lt.1 hlen)
    obtain ⟨fields, hfields, heq⟩ := exists_unpackFields htake
    match fields, hfields with
    | [request, shard, flags, size], _ =>
      refine ⟨⟨request, shard, flags, size⟩, conn.take headerSize, conn.drop headerSize, ?_, ?_⟩
      · apply unpackHeader_ok
        rw [unpackHeader, heq]
      · rw [List.take_append_drop]

theorem readFrame_short (wish wish' : Nat → Nat) {conn : List UInt8} (h : conn.length < headerSize) :
    readFrame wish wish' conn = .error (.connectionError "peer closed framed transfer") := by
  rw [readFrame, recvExact_eq, if_neg (Nat.not_le.2 h)]
  rfl

theorem readFrame_header (wish wish' : Nat → Nat) {h : Header} {head : List UInt8} (rest : List UInt8)
    (hpack : packHeader h = .ok head) :
    readFrame wish wish' (head ++ rest) =
      if h.flags = closeFlags then .ok none
      else if h.size ≤ rest.length then .ok (some ⟨h.request, h.shard, rest.take h.size⟩)
      else .error (.connectionError "peer closed framed transfer") := by
  obtain ⟨hlen, hunpack⟩ := packHeader_ok hpack
  have hhead : recvExact wish headerSize (head ++ rest) = .ok (head, rest) := by
    rw [← hlen]
    exact recvExact_append wish head rest
  simp only [readFrame, hhead, hunpack, recvExact_eq, bind, Except.bind, pure, Except.pure]
  by_cases hflags : h.flags = closeFlags
  · rw [if_pos hflags, if_pos hflags]
  · rw [if_neg hflags, if_neg hflags]
    by_cases hsize : h.size ≤ rest.length
    · rw [if_pos hsize, if_pos hsize]
    · rw [if_neg hsize, if_neg hsize]

theorem sendFrame_inv {request shard flags : Nat} {payload bytes : List UInt8}
    (h : sendFrame request shard flags payload = .ok bytes) :
    ∃ head, packHeader ⟨request, shard, flags, payload.length⟩ = .ok head ∧ bytes = head ++ payload := by
  rw [sendFrame] at h
  cases hpack : packHeader ⟨request, shard, flags, payload.length⟩ with
  | error e => rw [hpack] at h; cases h
  | ok head =>
    rw [hpack] at h
    exact ⟨head, rfl, (Except.ok.inj h).symm⟩

theorem readFrame_append {request shard flags : Nat} {payload bytes : List UInt8} (wish wish' : Nat → Nat)
    (rest : List UInt8) (hsend : sendFrame request shard flags payload = .ok bytes) :
    readFrame wish wish' (bytes ++ rest) =
    .ok (if flags = closeFlags then none else some ⟨request, shard, payload⟩) := by
  obtain ⟨head, hpack, rfl⟩ := sendFrame_inv hsend
  rw [List.append_assoc, readFrame_header wish wish' _ hpack]
  by_cases hflags : flags = closeFlags
  · rw [if_pos hflags, if_pos hflags]
  · rw [if_neg hflags, if_neg hflags, if_pos (by simp), List.take_left' rfl]

/-- **What a read makes of a connection**: too short for a header, a closing header, a frame, or a frame that is cut
short. -/
theorem readFrame_cases (wish wish' : Nat → Nat) (conn : List UInt8) :
    (conn.length < headerSize ∧ readFrame wish wish' conn = .error (.connectionError "peer closed framed transfer")) ∨
    ∃ h head rest, packHeader h = .ok head ∧ conn = head ++ rest ∧
      ((h.flags = closeFlags ∧ readFrame wish wish' conn = .ok none) ∨
      h.flags ≠ closeFlags ∧
        ((h.size ≤ rest.length ∧ readFrame wish wish' conn = .ok (some ⟨h.request, h.shard, rest.take h.size⟩)) ∨
        rest.length < h.size ∧
        readFrame wish wish' conn = .error (.connectionError "peer closed framed transfer"))) := by
  rcases exists_header conn with hshort | ⟨h, head, rest, hpack, rfl⟩
  · exact .inl ⟨hshort, readFrame_short wish wish' hshort⟩
  · refine .inr ⟨h, head, rest, hpack, rfl, ?_⟩
    rw [readFrame_header wish wish' rest hpack]
    by_cases hflags : h.flags = closeFlags
    · exact .inl ⟨hflags, if_pos hflags⟩
    · rw [if_neg hflags]
      by_cases hsize : h.size ≤ rest.length
      · exact .inr ⟨hflags, .inl ⟨hsize, if_pos hsize⟩⟩
      · exact .inr ⟨hflags, .inr ⟨Nat.not_le.1 hsize, if_neg hsize⟩⟩

/-- **A frame is what was sent**: whatever pieces the network makes, a serving thread reads a payload exactly from a
connection that begins with the frame of it, it stops exactly at a header with the closing flags, and it raises
exactly where the connection ends inside a frame. -/
theorem readFrame_iff (wish wish' : Nat → Nat) (conn : List UInt8) :
    (∀ f : Frame, readFrame wish wish' conn = .ok (some f) ↔
      ∃ flags bytes rest, flags ≠ closeFlags ∧ sendFrame f.request f.shard flags f.payload = .ok bytes ∧
        conn = bytes ++ rest) ∧
    (readFrame wish wish' conn = .ok none ↔
      ∃ h head rest, h.flags = closeFlags ∧ packHeader h = .ok head ∧ conn = head ++ rest) ∧
    ∀ e, readFrame wish wish' conn = .error e ↔
      e = .connectionError "peer closed framed transfer" ∧
        (conn.length < headerSize ∨ ∃ h head rest, h.flags ≠ closeFlags ∧ packHeader h = .ok head ∧
          conn = head ++ rest ∧ rest.length < h.size) := by
  have hcases := readFrame_cases wish wish' conn
  refine ⟨fun f => ⟨fun hread => ?_, ?_⟩, ⟨fun hread => ?_, ?_⟩, fun e => ⟨fun hread => ?_, ?_⟩⟩
  · rw [hread] at hcases
    rcases hcases with ⟨-, heq⟩ | ⟨h, head, rest, hpack, rfl, ⟨-, heq⟩ | ⟨hflags, ⟨hsize, heq⟩ | ⟨-, heq⟩⟩⟩
    · cases heq
    · cases heq
    · obtain rfl := Option.some.inj (Except.ok.inj heq)
      have hlen : (rest.take h.size).length = h.size := List.length_take_of_le hsize
      refine ⟨h.flags, head ++ rest.take h.size, rest.drop h.size, hflags, ?_, ?_⟩
      · show (packHeader ⟨h.request, h.shard, h.flags, (rest.take h.size).length⟩).map _ = _
        rw [hlen, hpack]
        rfl
      · rw [List.append_assoc, List.take_append_drop]
    · cases heq
  · rintro ⟨flags, bytes, rest, hflags, hsend, rfl⟩
    rw [readFrame_append wish wish' rest hsend, if_neg hflags]
  · rw [hread] at hcases
    rcases hcases with ⟨-, heq⟩ | ⟨h, head, rest, hpack, rfl, ⟨hflags, -⟩ | ⟨-, ⟨-, heq⟩ | ⟨-, heq⟩⟩⟩
    · cases heq
    · exact ⟨h, head, rest, hflags, hpack, rfl⟩
    · cases heq
    · cases heq
  · rintro ⟨h, head, rest, hflags, hpack, rfl⟩
    rw [readFrame_header wish wish' rest hpack, if_pos hflags]
  · rw [hread] at hcases
    rcases hcases with ⟨hshort, heq⟩ | ⟨h, head, rest, hpack, rfl, ⟨-, heq⟩ | ⟨hflags, ⟨-, heq⟩ | ⟨hsize, heq⟩⟩⟩
    · exact ⟨Except.error.inj heq, .inl hshort⟩
    · cases heq
    · cases heq
    · exact ⟨Except.error.inj heq, .inr ⟨h, head, rest, hflags, hpack, rfl, hsize⟩⟩
  · rintro ⟨rfl, hshort | ⟨h, head, rest, hflags, hpack, rfl, hsize⟩⟩
    · exact readFrame_short wish wish' hshort
    · rw [readFrame_header wish wish' rest hpack, if_neg hflags, if_neg (Nat.not_le.2 hsize)]

end TransportSmoke
end CodedLLM

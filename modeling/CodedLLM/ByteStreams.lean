import Mathlib
/-!
# ByteStreams — fixed-width fields, and a stream that arrives in pieces

Unsigned fields in network order, one after the other without padding: `packFields` and `unpackFields` are two
directions of one relation (`packFields_iff`).  A receiver that wants `count` bytes gets them in as many pieces as the
network likes to make; `gather_eq` says that the pieces do not matter.
-/
namespace ByteStreams

def bigEndian : Nat → Nat → List UInt8
  | 0, _         => []
  | width + 1, n => UInt8.ofNat (n / 256 ^ width) :: bigEndian width (n % 256 ^ width)

def value : List UInt8 → Nat
  | []      => 0
  | b :: bs => b.toNat * 256 ^ bs.length + value bs

@[simp] theorem length_bigEndian : ∀ width n : Nat, (bigEndian width n).length = width
  | 0, _         => rfl
  | width + 1, n => by rw [bigEndian, List.length_cons, length_bigEndian]

theorem value_lt : ∀ bs : List UInt8, value bs < 256 ^ bs.length
  | []      => Nat.one_pos
  | b :: bs => by
    have hb : b.toNat < 256 := UInt8.toNat_lt b
    have ih := value_lt bs
    rw [value, List.length_cons, Nat.pow_succ]
    calc b.toNat * 256 ^ bs.length + value bs < b.toNat * 256 ^ bs.length + 256 ^ bs.length := Nat.add_lt_add_left ih _
      _ = (b.toNat + 1) * 256 ^ bs.length := by ring
      _ ≤ 256 * 256 ^ bs.length := Nat.mul_le_mul_right _ hb
      _ = 256 ^ bs.length * 256 := Nat.mul_comm _ _

theorem value_bigEndian : ∀ {width n : Nat}, n < 256 ^ width → value (bigEndian width n) = n
  | 0, n, h => by
    rw [Nat.pow_zero] at h
    rw [bigEndian, value]
    omega
  | width + 1, n, h => by
    have hhead : n / 256 ^ width < 256 := by
      apply Nat.div_lt_of_lt_mul
      rw [Nat.pow_succ] at h
      exact h
    rw [bigEndian, value, length_bigEndian, value_bigEndian (Nat.mod_lt _ (by positivity)),
      UInt8.toNat_ofNat_of_lt' hhead, Nat.mul_comm]
    exact Nat.div_add_mod n (256 ^ width)

theorem bigEndian_value : ∀ bs : List UInt8, bigEndian bs.length (value bs) = bs
  | []      => rfl
  | b :: bs => by
    have hlt := value_lt bs
    have hpos : 0 < 256 ^ bs.length := by positivity
    rw [List.length_cons, bigEndian, value, Nat.mul_comm, Nat.mul_add_div hpos, Nat.div_eq_of_lt hlt, Nat.add_zero,
      Nat.mul_add_mod, Nat.mod_eq_of_lt hlt, UInt8.ofNat_toNat, bigEndian_value bs]

def packFields : List Nat → List Nat → Option (List UInt8)
  | [], []                       => some []
  | width :: widths, n :: fields =>
    if n < 256 ^ width then (packFields widths fields).map (bigEndian width n ++ ·) else none
  | _, _                         => none

def unpackFields : List Nat → List UInt8 → Option (List Nat)
  | [], bytes              => if bytes = [] then some [] else none
  | width :: widths, bytes =>
    if bytes.length < width then none
    else (unpackFields widths (bytes.drop width)).map (value (bytes.take width) :: ·)

theorem packFields_iff : ∀ (widths fields : List Nat) (bytes : List UInt8),
    packFields widths fields = some bytes ↔ unpackFields widths bytes = some fields
  | [], [], bytes => by simp [packFields, unpackFields, eq_comm]
  | [], n :: fields, bytes => by simp [packFields, unpackFields]
  | width :: widths, [], bytes => by simp [packFields, unpackFields]
  | width :: widths, n :: fields, bytes => by
    simp only [packFields, unpackFields, Option.ite_none_right_eq_some, Option.ite_none_left_eq_some,
      Option.map_eq_some_iff, List.cons.injEq]
    constructor
    · rintro ⟨hn, tail, htail, rfl⟩
      refine ⟨?_, fields, ?_, ?_, rfl⟩
      · simp
      · rw [List.drop_left' (length_bigEndian width n)]
        exact (packFields_iff widths fields tail).1 htail
      · rw [List.take_left' (length_bigEndian width n)]
        exact value_bigEndian hn
    · rintro ⟨hlen, tail, htail, rfl, rfl⟩
      have htake : (bytes.take width).length = width := List.length_take_of_le (Nat.not_lt.1 hlen)
      refine ⟨?_, bytes.drop width, (packFields_iff widths tail _).2 htail, ?_⟩
      · have hlt := value_lt (bytes.take width)
        rwa [htake] at hlt
      · have hhead := bigEndian_value (bytes.take width)
        rw [htake] at hhead
        rw [hhead, List.take_append_drop]

theorem length_of_packFields : ∀ {widths fields : List Nat} {bytes : List UInt8},
    packFields widths fields = some bytes → bytes.length = widths.sum
  | [], [], bytes, h => by
    obtain rfl := Option.some.inj h
    rfl
  | [], n :: fields, bytes, h => by cases h
  | width :: widths, [], bytes, h => by cases h
  | width :: widths, n :: fields, bytes, h => by
    simp only [packFields, Option.ite_none_right_eq_some, Option.map_eq_some_iff] at h
    obtain ⟨-, tail, htail, rfl⟩ := h
    rw [List.length_append, length_bigEndian, List.sum_cons, length_of_packFields htail]

theorem exists_unpackFields : ∀ {widths : List Nat} {bytes : List UInt8}, bytes.length = widths.sum →
    ∃ fields, fields.length = widths.length ∧ unpackFields widths bytes = some fields
  | [], bytes, h => by
    have hnil : bytes = [] := List.eq_nil_of_length_eq_zero h
    exact ⟨[], rfl, by rw [unpackFields, if_pos hnil]⟩
  | width :: widths, bytes, h => by
    rw [List.sum_cons] at h
    have hrest : (bytes.drop width).length = widths.sum := by
      rw [List.length_drop]
      omega
    obtain ⟨fields, hlen, heq⟩ := exists_unpackFields hrest
    refine ⟨value (bytes.take width) :: fields, ?_, ?_⟩
    · rw [List.length_cons, List.length_cons, hlen]
    · rw [unpackFields, if_neg (by omega), heq]
      rfl

/-- What one call for at most `count` bytes gets: at least one byte if there are any, and at most what it asks for. -/
def piece (wish count : Nat) (stream : List UInt8) : List UInt8 := stream.take (min count (max 1 wish))

/-- The rest of `count` bytes, piece by piece; the network's wish for the length of each piece is the argument.  It
gives up when the stream ends first. -/
def gather (wish : Nat → Nat) (count call : Nat) (data stream : List UInt8) : Option (List UInt8 × List UInt8) :=
  if count ≤ data.length then some (data, stream)
  else
    let next := piece (wish call) (count - data.length) stream
    if next = [] then none
    else gather wish count (call + 1) (data ++ next) (stream.drop next.length)
termination_by count - data.length
decreasing_by
  rename_i hlt hne
  rw [List.length_append]
  have hpos : 0 < (piece (wish call) (count - data.length) stream).length := List.length_pos_iff.2 hne
  omega

theorem gather_eq (wish : Nat → Nat) (count call : Nat) (data stream : List UInt8) (h : data.length ≤ count) :
    gather wish count call data stream =
      if count ≤ data.length + stream.length then
        some (data ++ stream.take (count - data.length), stream.drop (count - data.length))
      else none := by
  fun_induction gather wish count call data stream with
  | case1 call data stream hdone =>
    have heq : count = data.length := Nat.le_antisymm hdone h
    rw [if_pos (by omega), heq, Nat.sub_self, List.take_zero, List.append_nil, List.drop_zero]
  | case2 call data stream hmore next hnil =>
    -- an empty piece is the end of the stream
    have hempty : stream = [] := by
      have hlen := congrArg List.length hnil
      simp only [next, piece, List.length_take, List.length_nil] at hlen
      exact List.eq_nil_of_length_eq_zero (by omega)
    rw [hempty, List.length_nil, if_neg (by omega)]
  | case3 call data stream hmore next hne ih =>
    have hsplit : stream = next ++ stream.drop next.length := by
      have hlen : next.length = min (min (count - data.length) (max 1 (wish call))) stream.length := List.length_take
      conv => lhs; rw [← List.take_append_drop next.length stream]
      congr 1
      show stream.take next.length = stream.take _
      rw [hlen, List.take_eq_take_iff]
      omega
    have hle : next.length ≤ count - data.length := by
      simp only [next, piece, List.length_take]
      omega
    have hlen := congrArg List.length hsplit
    rw [List.length_append] at hlen
    rw [ih (by rw [List.length_append]; omega), List.length_append]
    generalize stream.drop next.length = rest at hsplit hlen ⊢
    rw [hlen, hsplit]
    have htake :
        (next ++ rest).take (count - data.length) = next ++ rest.take (count - (data.length + next.length)) := by
      rw [List.take_append, List.take_of_length_le hle, Nat.sub_add_eq]
    have hdrop : (next ++ rest).drop (count - data.length) = rest.drop (count - (data.length + next.length)) := by
      rw [List.drop_append, List.drop_of_length_le hle, List.nil_append, Nat.sub_add_eq]
    rw [htake, hdrop, List.append_assoc, Nat.add_assoc]

end ByteStreams

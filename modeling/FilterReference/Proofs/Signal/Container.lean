/-
# Wave files as they are written

A `Recording` is a wave file of integer samples: chunks that say nothing about the samples, a format
chunk in one of the forms that are read for integers, more such chunks, and the data.  What the
format leaves open is a field of it.  Its header is read up to the data (`openBytes_recording`), and
samples are taken from the data as they are stored (`takeSamples_stored`).
-/
import FilterReference.Proofs.Traversal
import FilterReference.Signal.Wave

namespace FilterReference

namespace Wave

/-- The bytes of a number, least significant first. -/
def bytesOf : Nat → Nat → List UInt8
  | 0, _ => []
  | count + 1, n => UInt8.ofNat n :: bytesOf count (n / 256)

@[simp] theorem length_bytesOf (count n : Nat) : (bytesOf count n).length = count := by
  induction count generalizing n with
  | zero => rfl
  | succ count ih => rw [bytesOf, List.length_cons, ih]

theorem littleEndian_bytesOf (count n : Nat) : littleEndian (bytesOf count n) = n % 256 ^ count := by
  induction count generalizing n with
  | zero => exact (Nat.mod_one n).symm
  | succ count ih =>
      rw [bytesOf, littleEndian, ih, UInt8.toNat_ofNat', pow_succ' 256, Nat.mod_mul (a := 256)]

theorem takeBytes_append {count : Nat} {bytes : List UInt8} (h : bytes.length = count)
    (rest : List UInt8) : takeBytes count (bytes ++ rest) = .ok (bytes, rest) := by
  simp only [takeBytes, List.splitAt_eq, List.take_left' h, List.drop_left' h, h, if_true]

theorem takeWord_append {count n : Nat} (h : n < 256 ^ count) (rest : List UInt8) :
    takeWord count (bytesOf count n ++ rest) = .ok (n, rest) := by
  rw [takeWord, takeBytes_append (length_bytesOf count n), ok_bind]
  simp only [littleEndian_bytesOf, Nat.mod_eq_of_lt h]
  rfl

theorem takeWord_of_length {count : Nat} {bytes : List UInt8} (h : bytes.length = count)
    (rest : List UInt8) : takeWord count (bytes ++ rest) = .ok (littleEndian bytes, rest) := by
  rw [takeWord, takeBytes_append h, ok_bind]
  rfl

theorem check_eq_ok {condition : Bool} (h : condition = true) (fault : HeaderFault) :
    check condition fault = .ok () := if_pos h

/-! ## Depths

An integer is stored in two's complement, in as many bytes as its container has, except for those of
8 bits.  Taking the low bits again gives the integer back because it is within the bits it has. -/

/-- How an integer sample is stored: the number of its bits, in as many bytes as they need; 24 bits
also in four bytes. -/
inductive Depth where
  | eight
  | sixteen
  | twentyFour
  | twentyFourWide
  | thirtyTwo
deriving DecidableEq, Repr

namespace Depth

def bits : Depth → Nat
  | .eight => 8
  | .sixteen => 16
  | .twentyFour | .twentyFourWide => 24
  | .thirtyTwo => 32

/-- How many bytes a sample takes. -/
def container : Depth → Nat
  | .eight => 1
  | .sixteen => 2
  | .twentyFour => 3
  | .twentyFourWide | .thirtyTwo => 4

/-- An integer has a place among those of the depth. -/
def Holds (d : Depth) (v : Int) : Prop := -2 ^ (d.bits - 1) ≤ v ∧ v < 2 ^ (d.bits - 1)

/-- The bytes of a sample: two's complement, but integers of eight bits have an offset. -/
def stored (d : Depth) (v : Int) : List UInt8 :=
  match d with
  | .eight => bytesOf 1 (v + 128).toNat
  | d => bytesOf d.container (v % 2 ^ (8 * d.container)).toNat

theorem container_pos (d : Depth) : 0 < d.container := by cases d <;> decide

@[simp] theorem length_stored (d : Depth) (v : Int) : (d.stored v).length = d.container := by
  cases d <;> exact length_bytesOf _ _

theorem length_flatMap_stored (d : Depth) (samples : List Int) :
    (samples.flatMap d.stored).length = samples.length * d.container := by
  induction samples with
  | nil => exact (Nat.zero_mul _).symm
  | cons v samples ih =>
      rw [List.flatMap_cons, List.length_append, length_stored, ih, List.length_cons, Nat.succ_mul,
        Nat.add_comm]

/-- What a format chunk says of samples of the depth. -/
def format (d : Depth) (channels : Nat) : Format := ⟨channels, d.bits, d.container, .integer⟩

end Depth

theorem signed_emod {bits : Nat} (hbits : 0 < bits) {v : Int}
    (h : -2 ^ (bits - 1) ≤ v ∧ v < 2 ^ (bits - 1)) : signed bits (v % 2 ^ bits).toNat = v := by
  obtain ⟨k, rfl⟩ : ∃ k, bits = k + 1 := ⟨bits - 1, by omega⟩
  rw [Nat.add_sub_cancel] at h
  have hpow : (2 : Int) ^ (k + 1) = 2 * 2 ^ k := pow_succ' 2 k
  have hcast : ((2 ^ k : Nat) : Int) = 2 ^ k := by norm_cast
  unfold signed
  rw [Nat.add_sub_cancel]
  rcases lt_or_ge v 0 with hneg | hnonneg
  · have hmod : v % 2 ^ (k + 1) = v + 2 ^ (k + 1) := by
      rw [← Int.add_emod_right, Int.emod_eq_of_lt] <;> omega
    rw [hmod, if_neg (by omega)]
    omega
  · have hmod : v % 2 ^ (k + 1) = v := Int.emod_eq_of_lt hnonneg (by omega)
    rw [hmod, if_pos (by omega)]
    omega

theorem takeWord_emod (count : Nat) (v : Int) (rest : List UInt8) :
    takeWord count (bytesOf count (v % 2 ^ (8 * count)).toNat ++ rest) =
      .ok ((v % 2 ^ (8 * count)).toNat, rest) := by
  have hpos : (0 : Int) < 2 ^ (8 * count) := by positivity
  have hlt := Int.emod_lt_of_pos v hpos
  have hpow : ((256 ^ count : Nat) : Int) = 2 ^ (8 * count) := by
    rw [pow_mul]
    norm_cast
  exact takeWord_append (by omega) rest

/-- **A stored sample** is taken as the integer that it is. -/
theorem takeInteger_stored (d : Depth) (channels : Nat) {v : Int} (h : d.Holds v)
    (rest : List UInt8) : takeInteger (d.format channels) (d.stored v ++ rest) = .ok (v, rest) := by
  have hback : ∀ w : Int, w = v → (Except.ok (w, rest) : Except Fault _) = .ok (v, rest) := by
    rintro _ rfl
    rfl
  cases d with
  | eight =>
      have hlow : -128 ≤ v := h.1
      have hhigh : v < 128 := h.2
      have hlt : (v + 128).toNat < 256 ^ 1 := by omega
      change (takeWord 1 (bytesOf 1 (v + 128).toNat ++ rest) >>= _) = _
      rw [takeWord_append hlt, ok_bind]
      exact hback _ (by omega)
  | sixteen =>
      change (takeWord 2 (bytesOf 2 (v % 2 ^ (8 * 2)).toNat ++ rest) >>= _) = _
      rw [takeWord_emod, ok_bind]
      exact hback _ (signed_emod (by decide) h)
  | twentyFour =>
      change (takeWord 3 (bytesOf 3 (v % 2 ^ (8 * 3)).toNat ++ rest) >>= _) = _
      rw [takeWord_emod, ok_bind]
      exact hback _ (signed_emod (by decide) h)
  | twentyFourWide =>
      change (takeWord 4 (bytesOf 4 (v % 2 ^ (8 * 4)).toNat ++ rest) >>= _) = _
      rw [takeWord_emod, ok_bind]
      refine hback _ ?_
      -- The first three bytes of the four are those of 24 bits.
      have hlow : (v % 2 ^ (8 * 4)).toNat % 2 ^ 24 = (v % 2 ^ 24).toNat := by omega
      change signed 24 ((v % 2 ^ (8 * 4)).toNat % 2 ^ 24) = v
      rw [hlow]
      exact signed_emod (by decide) h
  | thirtyTwo =>
      change (takeWord 4 (bytesOf 4 (v % 2 ^ (8 * 4)).toNat ++ rest) >>= _) = _
      rw [takeWord_emod, ok_bind]
      exact hback _ (signed_emod (by decide) h)

example : Depth.eight.stored (-128) = [0] ∧ Depth.twentyFour.stored (-2) = [0xfe, 0xff, 0xff] := by
  decide

/-- Stored samples are taken in order, and what follows them makes no difference. -/
theorem takeSamples_stored (d : Depth) (channels : Nat) {samples : List Int}
    (h : ∀ v ∈ samples, d.Holds v) (rest : List UInt8) :
    takeSamples (d.format channels) samples.length (samples.flatMap d.stored ++ rest) =
      .ok (samples.map (scaled d.bits)) := by
  induction samples with
  | nil => rfl
  | cons v samples ih =>
      obtain ⟨hv, hsamples⟩ := List.forall_mem_cons.mp h
      have hsample : takeSample (d.format channels)
          (d.stored v ++ (samples.flatMap d.stored ++ rest)) =
            .ok (scaled d.bits v, samples.flatMap d.stored ++ rest) := by
        change (takeInteger (d.format channels) _ >>= _) = _
        rw [takeInteger_stored d channels hv, ok_bind]
        rfl
      rw [List.flatMap_cons, List.append_assoc, List.length_cons, takeSamples, hsample, ok_bind]
      simp only [ih hsamples, ok_bind]
      rfl

/-! ## Format chunks

There are four ways to say that samples are integers.  Those of 32 bits cannot have the two that are
longer without being extensible, since these are only read for fewer bits. -/

/-- How a format chunk of integers goes on behind its first sixteen bytes. -/
inductive Form where
  /-- Not at all. -/
  | plain
  /-- With two bytes that are not looked at. -/
  | extended (extra : Vector UInt8 2)
  /-- With as many bytes as an extensible format has; they are not looked at, either. -/
  | padded (extra : Vector UInt8 2) (more : Vector UInt8 22)
  /-- With the number of valid bits, a mask of channels and the identifier of integers. -/
  | extensible (valid : Nat) (mask : Vector UInt8 4)

namespace Form

def kind : Form → Nat
  | .extensible .. => 0xfffe
  | _ => 1

def size : Form → Nat
  | .plain => 16
  | .extended _ => 18
  | .padded .. => 40
  | .extensible .. => 40

/-- The number of bits that is given before the extension: an extensible format gives all there are.
-/
def stated (form : Form) (d : Depth) : Nat :=
  match form with
  | .extensible .. => d.container * 8
  | _ => d.bits

def extension : Form → List UInt8
  | .plain => []
  | .extended extra => extra.toList
  | .padded extra more => extra.toList ++ more.toList
  | .extensible valid mask =>
    bytesOf 2 22 ++ (bytesOf 2 valid ++ (mask.toList ++ (1 :: 0 :: identifierTail)))

/-- The form is there for samples of the depth.  With bytes that are not looked at, 32 bits are not
read. -/
def Fits (form : Form) (d : Depth) : Prop :=
  match form with
  | .plain => True
  | .extended _ => d ≠ .thirtyTwo
  | .padded .. => d ≠ .thirtyTwo
  | .extensible valid _ => valid = d.bits ∨ valid = 0 ∧ d.bits = d.container * 8

end Form

/-- A chunk that says nothing about samples.  No byte is left behind a body of odd length. -/
inductive Chunk where
  | fact (count : Vector UInt8 4)
  | other (name : Vector UInt8 4) (body : List UInt8)
      (unread : name.toList ∉ [tag "fmt ", tag "fact", tag "data"]) (short : body.length < 2 ^ 32)

def Chunk.bytes : Chunk → List UInt8
  | .fact count => tag "fact" ++ (bytesOf 4 4 ++ count.toList)
  | .other name body _ _ => name.toList ++ (bytesOf 4 body.length ++ body)

structure Recording where
  depth : Depth
  form : Form
  fits : form.Fits depth
  channels : Nat
  rate : Nat
  rate_lt : rate < 2 ^ 32
  frame_lt : channels * depth.container < 2 ^ 16
  byteRate_lt : channels * depth.container * rate < 2 ^ 32
  /-- The length that the header gives of the file, which is not looked at. -/
  length : Vector UInt8 4
  before : List Chunk
  between : List Chunk
  data : List UInt8
  data_lt : data.length < 2 ^ 32
  trailer : List UInt8

namespace Recording

variable (r : Recording)

/-- What stands in the format chunk. -/
def description : List UInt8 :=
  bytesOf 2 r.form.kind ++ (bytesOf 2 r.channels ++ (bytesOf 4 r.rate ++
    (bytesOf 4 (r.channels * r.depth.container * r.rate) ++
      (bytesOf 2 (r.channels * r.depth.container) ++ (bytesOf 2 (r.form.stated r.depth) ++
        r.form.extension)))))

def tail : List UInt8 := r.data ++ r.trailer

def bytes : List UInt8 :=
  tag "RIFF" ++ (r.length.toList ++ (tag "WAVE" ++ (r.before.flatMap Chunk.bytes ++
    (tag "fmt " ++ (bytesOf 4 r.form.size ++ (r.description ++ (r.between.flatMap Chunk.bytes ++
      (tag "data" ++ (bytesOf 4 r.data.length ++ r.tail)))))))))

def content : ByteArray := ⟨r.bytes.toArray⟩

end Recording

/-! ## Reading the header

Each chunk takes eight bytes at least and one unit of fuel, so the fuel outlasts the chunks.  What
comes before the format, between it and the data, and behind the data makes no difference. -/

theorem takeFormat_eq {kind channels rate byteRate frame bits size : Nat} (rest : List UInt8)
    (hkind : kind < 256 ^ 2) (hchannels : channels < 256 ^ 2) (hrate : rate < 256 ^ 4)
    (hbyteRate : byteRate < 256 ^ 4) (hframe : frame < 256 ^ 2) (hbits : bits < 256 ^ 2)
    (hsize : 16 ≤ size) :
    takeFormat size (bytesOf 2 kind ++ (bytesOf 2 channels ++ (bytesOf 4 rate ++
      (bytesOf 4 byteRate ++ (bytesOf 2 frame ++ (bytesOf 2 bits ++ rest)))))) = (do
        check (channels != 0) .zeroChannels
        check (frame / channels * 8 < 2 ^ 16 && bits ≤ frame / channels * 8) .bitsExceedContainer
        check (byteRate == frame * rate) .inconsistentRate
        check (bits % 8 == 0) .partialBytes
        check (bits != 0) .zeroBits
        let f : Format := ⟨channels, bits, frame / channels, .integer⟩
        if kind = 1 then integerExtension size f rest
        else if kind = 3 then singleExtension size f rest
        else if kind = 0xfffe then extensibleExtension size f rest
        else .error .unsupported) := by
  rw [takeFormat, check_eq_ok (decide_eq_true hsize), ok_bind, takeWord_append hkind, ok_bind]
  simp only [takeWord_append hchannels, takeWord_append hrate, takeWord_append hbyteRate,
    takeWord_append hframe, takeWord_append hbits, ok_bind]

/-- All depths but the greatest go with bytes that are not looked at. -/
theorem check_extended {d : Depth} (h : d ≠ .thirtyTwo) :
    check (d.bits == 8 || d.bits == 16 || d.bits == 24) .extendedIntegerBits = .ok () := by
  cases d <;> first | rfl | exact absurd rfl h

theorem takeExtension {form : Form} {d : Depth} (h : form.Fits d) (channels : Nat)
    (rest : List UInt8) :
    (let f : Format := ⟨channels, form.stated d, d.container, .integer⟩
      if form.kind = 1 then integerExtension form.size f (form.extension ++ rest)
      else if form.kind = 3 then singleExtension form.size f (form.extension ++ rest)
      else if form.kind = 0xfffe then extensibleExtension form.size f (form.extension ++ rest)
      else .error .unsupported) = .ok (d.format channels, rest) := by
  cases form with
  | plain => rfl
  | extended extra =>
      change (takeWord 2 (extra.toList ++ rest) >>= _) = _
      rw [takeWord_of_length extra.length_toList, ok_bind]
      change (check (d.bits == 8 || d.bits == 16 || d.bits == 24) _ >>= _) = _
      rw [check_extended h]
      rfl
  | padded extra more =>
      rw [Form.extension, List.append_assoc]
      change (takeWord 2 (extra.toList ++ (more.toList ++ rest)) >>= _) = _
      rw [takeWord_of_length extra.length_toList, ok_bind]
      change (check (d.bits == 8 || d.bits == 16 || d.bits == 24) _ >>= _) = _
      rw [check_extended h, ok_bind]
      change (takeBytes 22 (more.toList ++ rest) >>= _) = _
      rw [takeBytes_append more.length_toList]
      rfl
  | extensible valid mask =>
      have hvalid : valid < 256 ^ 2 ∧
          (if 0 < valid then valid else d.container * 8) = d.bits := by
        rcases h with rfl | ⟨rfl, hbits⟩
        · cases d <;> decide
        · exact ⟨by decide, hbits.symm⟩
      have hidentifier : (1 :: 0 :: identifierTail).length = 16 := rfl
      rw [Form.extension]
      simp only [List.append_assoc]
      change extensibleExtension 40 ⟨channels, d.container * 8, d.container, .integer⟩ _ = _
      rw [extensibleExtension, check_eq_ok (decide_eq_true (le_refl 40)), ok_bind,
        takeWord_append (by decide), ok_bind]
      dsimp only
      rw [check_eq_ok (beq_self_eq_true 22), ok_bind, takeWord_append hvalid.1, ok_bind]
      dsimp only
      rw [takeWord_of_length mask.length_toList, ok_bind]
      dsimp only
      rw [takeBytes_append hidentifier, ok_bind]
      dsimp only
      rw [encodingOf, if_pos rfl, ok_bind, hvalid.2]
      rfl

section Reading

variable (r : Recording)

theorem channels_lt : r.channels < 256 ^ 2 := by
  have hframe := r.frame_lt
  have hle := Nat.le_mul_of_pos_right r.channels r.depth.container_pos
  exact hle.trans_lt hframe

theorem stated_bounds (form : Form) (d : Depth) :
    form.stated d ≤ d.container * 8 ∧ form.stated d % 8 = 0 ∧ form.stated d ≠ 0 := by
  have hdepth : d.bits ≤ d.container * 8 ∧ d.bits % 8 = 0 ∧ d.bits ≠ 0 := by cases d <;> decide
  cases form with
  | extensible valid mask =>
      have hpos := d.container_pos
      change d.container * 8 ≤ d.container * 8 ∧ d.container * 8 % 8 = 0 ∧ d.container * 8 ≠ 0
      omega
  | _ => exact hdepth

theorem takeFormat_description (rest : List UInt8) :
    takeFormat r.form.size (r.description ++ rest) =
      if r.channels = 0 then .error (.header .zeroChannels)
      else .ok (r.depth.format r.channels, rest) := by
  have hkind : r.form.kind < 256 ^ 2 := by
    cases r.form <;> exact of_decide_eq_true rfl
  have hsize : 16 ≤ r.form.size := by
    cases r.form <;> exact of_decide_eq_true rfl
  have hcontainer : r.depth.container ≤ 4 := by cases r.depth <;> decide
  obtain ⟨hstated, hmod, hzero⟩ := stated_bounds r.form r.depth
  have hbits : r.form.stated r.depth < 256 ^ 2 := by omega
  simp only [Recording.description, List.append_assoc]
  rw [takeFormat_eq _ hkind (channels_lt r) r.rate_lt r.byteRate_lt r.frame_lt hbits hsize]
  by_cases hchannels : r.channels = 0
  · rw [if_pos hchannels, hchannels]
    rfl
  · have hpos : 0 < r.channels := Nat.pos_of_ne_zero hchannels
    have hroom : (decide (r.depth.container * 8 < 2 ^ 16) &&
        decide (r.form.stated r.depth ≤ r.depth.container * 8)) = true := by
      rw [decide_eq_true hstated, Bool.and_true]
      exact decide_eq_true (by omega)
    rw [if_neg hchannels, Nat.mul_div_cancel_left _ hpos, check_eq_ok (bne_iff_ne.mpr hchannels),
      ok_bind, check_eq_ok hroom, ok_bind, check_eq_ok (beq_self_eq_true _), ok_bind,
      check_eq_ok (beq_iff_eq.mpr hmod), ok_bind, check_eq_ok (bne_iff_ne.mpr hzero), ok_bind]
    exact takeExtension r.fits r.channels rest

theorem seekData_header {name : List UInt8} (hname : name.length = 4) {size : Nat}
    (hsize : size < 256 ^ 4) (fuel : Nat) (format? : Option Format) (rest : List UInt8) :
    seekData (fuel + 1) format? (name ++ (bytesOf 4 size ++ rest)) =
      if name = tag "fmt " then
        takeFormat size rest >>= fun taken => seekData fuel (some taken.1) taken.2
      else if name = tag "fact" then seekData fuel format? (rest.drop 4)
      else if name = tag "data" then
        match format? with
        | some format => .ok (format, size, rest)
        | none => .error (.header .missingFormat)
      else takeBytes size rest >>= fun taken => seekData fuel format? taken.2 := by
  rw [seekData, takeBytes_append hname, ok_bind]
  dsimp only
  rw [takeWord_append hsize, ok_bind]
  rfl

theorem seekData_chunk (fuel : Nat) (format? : Option Format) (c : Chunk) (rest : List UInt8) :
    seekData (fuel + 1) format? (c.bytes ++ rest) = seekData fuel format? rest := by
  cases c with
  | fact count =>
      have hname : tag "fact" ≠ tag "fmt " := by decide
      simp only [Chunk.bytes, List.append_assoc]
      rw [seekData_header (by decide) (by decide), if_neg hname, if_pos rfl,
        List.drop_left' count.length_toList]
  | other name body unread short =>
      obtain ⟨hformat, hfact, hdata⟩ : name.toList ≠ tag "fmt " ∧ name.toList ≠ tag "fact" ∧
          name.toList ≠ tag "data" := by simpa using unread
      simp only [Chunk.bytes, List.append_assoc]
      rw [seekData_header name.length_toList short, if_neg hformat, if_neg hfact, if_neg hdata,
        takeBytes_append rfl, ok_bind]

theorem seekData_chunks (fuel : Nat) (format? : Option Format) (chunks : List Chunk)
    (rest : List UInt8) :
    seekData (fuel + chunks.length) format? (chunks.flatMap Chunk.bytes ++ rest) =
      seekData fuel format? rest := by
  induction chunks with
  | nil => rfl
  | cons c chunks ih =>
      rw [List.flatMap_cons, List.append_assoc, List.length_cons, ← Nat.add_assoc, seekData_chunk, ih]

/-- There is a byte for every chunk. -/
theorem length_le_chunks (chunks : List Chunk) :
    chunks.length ≤ (chunks.flatMap Chunk.bytes).length := by
  induction chunks with
  | nil => exact Nat.zero_le _
  | cons c chunks ih =>
      have hpos : 0 < c.bytes.length := by
        cases c with
        | fact count => exact Nat.succ_pos _
        | other name body _ _ =>
            simp only [Chunk.bytes, List.length_append, length_bytesOf]
            omega
      rw [List.flatMap_cons, List.length_append, List.length_cons]
      omega

/-- **The chunks of a recording** up to its data. -/
theorem seekData_recording {fuel : Nat} (hfuel : r.before.length + r.between.length + 2 ≤ fuel) :
    seekData fuel none (r.before.flatMap Chunk.bytes ++ (tag "fmt " ++ (bytesOf 4 r.form.size ++
      (r.description ++ (r.between.flatMap Chunk.bytes ++
        (tag "data" ++ (bytesOf 4 r.data.length ++ r.tail))))))) =
      if r.channels = 0 then .error (.header .zeroChannels)
      else .ok (r.depth.format r.channels, r.data.length, r.tail) := by
  obtain ⟨spare, rfl⟩ := Nat.exists_eq_add_of_le hfuel
  have hsize : r.form.size < 256 ^ 4 := by cases r.form <;> exact of_decide_eq_true rfl
  have hsplit : r.before.length + r.between.length + 2 + spare =
      spare + 1 + r.between.length + 1 + r.before.length := by omega
  rw [hsplit, seekData_chunks, seekData_header (by decide) hsize, if_pos rfl, takeFormat_description]
  split_ifs with hchannels
  · rfl
  · have hformat : tag "data" ≠ tag "fmt " := by decide
    have hfact : tag "data" ≠ tag "fact" := by decide
    rw [ok_bind]
    dsimp only
    rw [seekData_chunks, seekData_header (by decide) r.data_lt, if_neg hformat, if_neg hfact,
      if_pos rfl]

/-- **The header of a recording** says how its data is to be read, if the data makes whole samples
for all of its channels. -/
theorem openBytes_recording :
    openBytes r.bytes =
      if r.channels = 0 then .error (.header .zeroChannels)
      else do
        let count := r.data.length / r.depth.container
        check (count * r.depth.container == r.data.length) .partialSample
        check (count % r.channels == 0) .partialFrame
        return (r.depth.format r.channels, count, r.tail) := by
  have hbefore := length_le_chunks r.before
  have hbetween := length_le_chunks r.between
  rw [Recording.bytes, openBytes, takeBytes_append (by decide), ok_bind]
  dsimp only
  rw [check_eq_ok (beq_self_eq_true _), ok_bind, takeWord_of_length r.length.length_toList, ok_bind]
  dsimp only
  rw [takeBytes_append (by decide), ok_bind]
  dsimp only
  rw [check_eq_ok (beq_self_eq_true _), ok_bind, seekData_recording]
  · split_ifs <;> rfl
  · simp only [List.length_append]
    have hformat : (tag "fmt ").length = 4 := by decide
    omega

end Reading

end Wave

end FilterReference

import Trtp.System.Fifo

/-!
# From file to file (`src/sender.c:229-331`, `src/receiver.c:70-115`)

The files at both ends. `read_file` reads its file 512 bytes at a time; the standard input is first
copied into `stdin.txt`, which is opened without `O_TRUNC`. The receiver's `main` opens its output
with `O_APPEND`.

* `contents_readChunks`: **packet `i` carries bytes `512 i` to `512 i + 511` of the file**.
* `readSource_cuts`: the stack that `read_file` leaves, for any file.
* `stdin_exact_iff`: **the standard input is sent, and behind it what an old `stdin.txt` had
  there**: it is sent exactly when the old file was not longer.
* `files_copied`: **at any time the output file is its old content and the first packets of the
  input; it ends in the whole input when either program is done**.

Premises: the files open, and `read` and `write` take all they can. `remove("stdin.txt")`, the
messages and the error returns are left out.
-/

namespace Trtp

open Trtp.Run Trtp.Bytes

/-! ## Files -/

/-- The bytes of a file, and where a descriptor stands in it. -/
structure File where
  bytes : List UInt8
  offset : ℕ
  deriving Repr, DecidableEq

/-- `read(fd, buf, count)`: what is there, and the descriptor behind it. -/
def File.read (fd : File) (count : ℕ) : List UInt8 × File :=
  let buf := (fd.bytes.drop fd.offset).take count
  (buf, { fd with offset := fd.offset + buf.length })

/-- `write(fd, buf, count)`. -/
def File.write (fd : File) (buf : List UInt8) : File :=
  { bytes := overwrite fd.bytes fd.offset buf, offset := fd.offset + buf.length }

/-- `open` of a file that is there. -/
def File.opened (bytes : List UInt8) : File := { bytes := bytes, offset := 0 }

/-- The bytes that are still to be read. -/
def File.left (fd : File) : ℕ := fd.bytes.length - fd.offset

theorem length_read_le (fd : File) (count : ℕ) : (fd.read count).1.length ≤ count :=
  List.length_take_le _ _

theorem length_read_le_left (fd : File) (count : ℕ) : (fd.read count).1.length ≤ fd.left := by
  simp only [File.read, File.left, List.length_take, List.length_drop]
  omega

theorem left_read (fd : File) (count : ℕ) :
    (fd.read count).2.left = fd.left - (fd.read count).1.length := by
  simp only [File.read, File.left]
  omega

/-! ## Reading -/

/-- The reads of `read_file`, until one returns 0. A round takes a byte at least: `fuel` is more
than what is left. -/
def readChunks : ℕ → File → List Chunk
  | 0, _ => []
  | fuel + 1, fd =>
    if h : 0 < (fd.read maxPayloadSize).1.length then
      ⟨(fd.read maxPayloadSize).1, h, length_read_le fd maxPayloadSize⟩ ::
        readChunks fuel (fd.read maxPayloadSize).2
    else []

/-- Where `read_file` gets its bytes: a file, or the standard input as it is read in pieces, with
what `stdin.txt` held before. -/
inductive Source where
  | file (bytes : List UInt8)
  | stdin (pieces : List Chunk) (old : List UInt8)

/-- The copy into `stdin.txt`. -/
def copyStdin : List Chunk → File → File
  | [], fd => fd
  | buffer :: rest, fd => copyStdin rest (fd.write buffer.1)

/-- What `read_file` opens in the end. -/
def Source.bytes : Source → List UInt8
  | .file bytes => bytes
  | .stdin pieces old => (copyStdin pieces (File.opened old)).bytes

/-- The read results of `read_file`. -/
def Source.chunks (source : Source) : List Chunk :=
  readChunks (source.bytes.length + 1) (File.opened source.bytes)

/-- `read_file` on an empty stack. -/
def readSource (source : Source) : Stack := readFile source.chunks 0 []

/-- **What packet `i` carries**, in a file read from any offset. -/
theorem contents_readChunks {fuel : ℕ} {fd : File} (h : fd.left < fuel) (i : ℕ) :
    contents (readChunks fuel fd) i = (fd.bytes.drop (fd.offset + 512 * i)).take 512 := by
  induction fuel generalizing fd i with
  | zero => exact absurd h (Nat.not_lt_zero _)
  | succ fuel ih =>
    rw [readChunks]
    split
    · rename_i hpos
      have hleft := left_read fd maxPayloadSize
      have hle := length_read_le_left fd maxPayloadSize
      cases i with
      | zero => rfl
      | succ i =>
        change contents (readChunks fuel (fd.read maxPayloadSize).2) i = _
        rw [ih (by rw [hleft]; omega)]
        by_cases hfull : (fd.read maxPayloadSize).1.length = 512
        · -- a whole packet was read
          simp only [File.read] at hfull ⊢
          rw [hfull]
          congr 2
          omega
        · -- the end of the file was reached
          have hend : fd.bytes.length ≤ fd.offset + (fd.read maxPayloadSize).1.length := by
            have hlt := lt_of_le_of_ne (length_read_le fd maxPayloadSize) hfull
            simp only [File.read, List.length_take, List.length_drop] at hlt hpos ⊢
            omega
          rw [List.drop_eq_nil_of_le, List.drop_eq_nil_of_le]
          · have := length_read_le fd maxPayloadSize
            unfold maxPayloadSize at this hend
            omega
          · simp only [File.read] at hend ⊢
            omega
    · rename_i hzero
      have hend : fd.bytes.length ≤ fd.offset := by
        simp only [File.read, List.length_take, List.length_drop, maxPayloadSize] at hzero
        omega
      rw [List.drop_eq_nil_of_le (by omega)]
      rfl

theorem contents_source (source : Source) (i : ℕ) :
    contents source.chunks i = (source.bytes.drop (512 * i)).take 512 := by
  have hleft : (File.opened source.bytes).left < source.bytes.length + 1 :=
    Nat.lt_succ_of_le (Nat.sub_le _ _)
  have h := contents_readChunks hleft i
  rwa [show (File.opened source.bytes).offset = 0 from rfl, Nat.zero_add] at h

/-- The first packets carry the front of the input. -/
theorem flatten_source (source : Source) (k : ℕ) :
    ((List.range k).map (contents source.chunks)).flatten = source.bytes.take (512 * k) := by
  induction k with
  | zero => simp
  | succ k ih =>
    rw [List.range_succ, List.map_append, List.flatten_append, ih, List.map_singleton,
      contents_source, Nat.mul_succ, List.take_add]
    simp

/-- The number of the packets with a payload. -/
theorem length_chunks (source : Source) :
    source.chunks.length = (source.bytes.length + 511) / 512 := by
  have hiff : ∀ i, source.chunks.length ≤ i ↔ source.bytes.length ≤ 512 * i := by
    intro i
    rw [← contents_eq_nil, contents_source, List.take_eq_nil_iff, List.drop_eq_nil_iff]
    simp
  have hend := (hiff source.chunks.length).mp (le_refl _)
  rcases Nat.eq_zero_or_pos source.chunks.length with h0 | hpos
  · omega
  · have hlast := mt (hiff (source.chunks.length - 1)).mpr (by omega)
    omega

/-- All packets carry the input. -/
theorem flatten_chunks (source : Source) :
    (source.chunks.map Subtype.val).flatten = source.bytes := by
  have hlen := length_chunks source
  rw [← flatten_contents source.chunks (le_refl _), flatten_source, List.take_of_length_le]
  omega

/-- The stack of an input: packet `i` has number `i % 256`, carries its 512 bytes of the input,
and the packet behind them is the terminating one. -/
structure CutsInto (bytes : List UInt8) (stack : Stack) : Prop where
  size_eq : stack.length = (bytes.length + 511) / 512 + 1
  packet : ∀ (i : ℕ) (node : Node), stack[i]? = some node →
    node.pkt.type = .data ∧ node.pkt.tr = 0 ∧ node.pkt.timestamp = 0 ∧
      node.pkt.seqnum = UInt8.ofNat i ∧ node.pkt.bytes = (bytes.drop (512 * i)).take 512 ∧
      node.pkt.length.toNat = min 512 (bytes.length - 512 * i)
  file_eq : (stack.map fun node => node.pkt.bytes).flatten = bytes

/-- **`read_file` cuts any input into packets of 512 bytes**, and nothing is lost. -/
theorem readSource_cuts (source : Source) : CutsInto source.bytes (readSource source) := by
  obtain ⟨hholds, hfresh⟩ := readFile_holds source.chunks
  have hlen := hholds.length_eq
  have hdata : ∀ (i : ℕ) (node : Node), (readSource source)[i]? = some node →
      IsData (contents source.chunks) i node.pkt := by
    intro i node hi
    have := hholds.data i node hi
    rwa [Nat.zero_add] at this
  refine ⟨?_, fun i node hi => ?_, ?_⟩
  · rw [readSource, ← length_chunks]
    omega
  · have hp := hdata i node hi
    have hbytes : node.pkt.bytes = (source.bytes.drop (512 * i)).take 512 :=
      hp.bytes_eq.trans (contents_source source i)
    refine ⟨hp.type_eq, hp.sendable.tr_eq, hfresh node (List.mem_of_getElem? hi), hp.seqnum_eq,
      hbytes, ?_⟩
    rw [← hp.sendable.length_eq, hbytes, List.length_take, List.length_drop]
  · rw [readSource, readFile_eq_map, List.map_map]
    exact (flatten_packetsFrom source.chunks 0).trans (flatten_chunks source)

/-! ## The standard input -/

/-- The copy goes over what was there, and leaves the rest. -/
theorem copyStdin_bytes (pieces : List Chunk) (done rest : List UInt8) :
    (copyStdin pieces ⟨done ++ rest, done.length⟩).bytes =
      done ++ (pieces.map Subtype.val).flatten ++
        rest.drop (pieces.map Subtype.val).flatten.length := by
  induction pieces generalizing done rest with
  | nil => simp [copyStdin]
  | cons piece pieces ih =>
    have hwrite : (⟨done ++ rest, done.length⟩ : File).write piece.1 =
        ⟨(done ++ piece.1) ++ rest.drop piece.1.length, (done ++ piece.1).length⟩ := by
      rw [File.write, overwrite_append done rest piece.1 rfl, List.length_append]
    rw [copyStdin, hwrite, ih, List.map_cons, List.flatten_cons, List.drop_drop,
      List.length_append]
    simp only [List.append_assoc]

/-- What is sent of the standard input: all of it, and the rest of an old `stdin.txt`. -/
theorem bytes_stdin (pieces : List Chunk) (old : List UInt8) :
    (Source.stdin pieces old).bytes = (pieces.map Subtype.val).flatten ++
      old.drop (pieces.map Subtype.val).flatten.length :=
  copyStdin_bytes pieces [] old

/-- **The standard input is sent exactly when no longer `stdin.txt` was there.** Packet by packet,
however it was read. -/
theorem stdin_exact_iff (pieces : List Chunk) (old : List UInt8) :
    ((readSource (.stdin pieces old)).map fun node => node.pkt.bytes).flatten =
        (pieces.map Subtype.val).flatten ↔
      old.length ≤ (pieces.map Subtype.val).flatten.length := by
  have hfile := flatten_packetsFrom (Source.stdin pieces old).chunks 0
  rw [readSource, readFile_eq_map, List.map_map]
  change ((packetsFrom (Source.stdin pieces old).chunks 0).map Pkt.bytes).flatten = _ ↔ _
  rw [hfile, flatten_chunks, bytes_stdin, List.append_right_eq_self, List.drop_eq_nil_iff]

/-! ## Both ends -/

/-- The output file: every `write` goes behind what is there. -/
def outputFile (old : List UInt8) (r : Receiver) : List UInt8 := r.output.foldl (· ++ ·) old

theorem outputFile_eq (old : List UInt8) (r : Receiver) :
    outputFile old r = old ++ r.output.flatten := by
  unfold outputFile
  induction r.output generalizing old with
  | nil => simp
  | cons buf output ih => rw [List.foldl_cons, ih, List.flatten_cons, List.append_assoc]

/-- The files at both ends of a transfer. -/
structure Copied (bytes old : List UInt8) (s : Sys) : Prop where
  written : outputFile old s.receiver = old ++ bytes.take (512 * s.receiver.delivered)
  removed : bytes.take (512 * s.acked) <+: bytes.take (512 * s.receiver.delivered)
  sender_end : s.sender.pc = .success → outputFile old s.receiver = old ++ bytes
  receiver_end : s.receiver.closed = true → outputFile old s.receiver = old ++ bytes

/-- **The file is copied**, in every run in order of both programs. -/
theorem files_copied [Zlib] (source : Source) (old : List UInt8) (buf : Buffer) {es : List Event}
    (hes : ∀ e ∈ es, e.InOrder) :
    Along step (fun _ _ s' => Copied source.bytes old s') (Sys.start source.chunks buf) es := by
  refine fifo_along source.chunks buf (fun S s e s' hfifo he hs => ?_) hes
  obtain ⟨S', hfifo'⟩ := fifo_step hfifo he hs
  have htransfer := hfifo'.transfer
  have hle := hfifo'.inv.acked_le
  refine ⟨?_, List.take_prefix_take_left (by omega), fun hdone => ?_, fun hclosed => ?_⟩
  · rw [outputFile_eq, htransfer.safe.written, flatten_source]
  · rw [outputFile_eq, htransfer.sender_end (Or.inl hdone), flatten_chunks]
  · rw [outputFile_eq, htransfer.receiver_end hclosed, flatten_chunks]

/-- Two bytes from the standard input over an old `stdin.txt` of one. -/
def twoBytes : Source := .stdin [⟨[1, 2], by decide⟩] [9]

/-- The transfer of a packet and of the terminating packet. -/
def inTurn : List Event :=
  [.transmit 1, .deliver pktNew, .reply 0 cleared, .transmit 1, .deliver pktNew, .reply 0 cleared]

open Zlib.Standard in
/-- They are written behind an output of one byte. -/
theorem files_copied_stdin :
    ∃ s, exec step (Sys.start twoBytes.chunks cleared) inTurn = some s ∧
      outputFile [7] s.receiver = [7, 1, 2] ∧
      Along step (fun _ _ s' => Copied twoBytes.bytes [7] s') (Sys.start twoBytes.chunks cleared)
        inTurn := by
  have hread : (exec step (Sys.start twoBytes.chunks cleared) inTurn).map
      (fun s => outputFile [7] s.receiver) = some [7, 1, 2] := by
    decide +kernel
  obtain ⟨s, hs, hend⟩ := Option.map_eq_some_iff.mp hread
  exact ⟨s, hs, hend, files_copied twoBytes [7] cleared (by decide)⟩

end Trtp

import CronManager.Executor.Shell

/-!
# The bounded readers

`read_bounded` exists twice: the shell's reads a pipe of the child and cuts its output at the cap,
the HTTP one reads the response body and refuses it past the cap.  `capOutput` and `readBounded`
are their results on a list of chunks.  This file has the two loops one read at a time, with the
buffer they fill (`Reader`), so that the results can be compared with the stream as a whole and
the buffer can be looked at between two reads.

* `capOutput_eq` and `readBounded_eq` : the result depends on the stream only, not on its chunks;
* `Reader.pipeRun_eq` and `Reader.bodyRun_eq` : the loops end with these results;
* `Reader.Bounded` : between any two reads the buffer is a start of what was read, within the cap,
  and at most the marker after it.

The fixed scratch array of a pipe read and the chunk the HTTP client hands over are not part of
the buffer.
-/

namespace CronManager

open Rust

/-! ### The loops, one read at a time -/

/-- Where a bounded reader is: filling its buffer, dropping what follows the cap, or returned. -/
inductive Reader where
  | reading (buf : List UInt8)
  | draining (buf : List UInt8)
  | done (result : Except CronManagerError (List UInt8))
  deriving DecidableEq

namespace Reader

/-- One read of a pipe by the shell's `read_bounded`: the bytes it has put into the chunk, none of
them at the end of the pipe. -/
def readPipe (limit : ℕ) : Reader → Except String (List UInt8) → Reader
  | .reading _, .error e => .done (.error (.internal s!"reading child pipe: {e}"))
  | .reading buf, .ok [] => .done (.ok buf)
  | .reading buf, .ok (b :: chunk) =>
    if limit < buf.length + (b :: chunk).length then
      -- `saturating_sub`
      let room := limit - buf.length
      .draining (buf ++ (b :: chunk).take room ++ outputMarker)
    else .reading (buf ++ b :: chunk)
  -- the drain loop breaks at the end and at an error
  | .draining buf, .error _ => .done (.ok buf)
  | .draining buf, .ok [] => .done (.ok buf)
  | .draining buf, .ok (_ :: _) => .draining buf
  | .done r, _ => .done r

/-- One `resp.chunk()` of the HTTP `read_bounded`. -/
def readBody (limit : ℕ) : Reader → Except String (Option (List UInt8)) → Reader
  | .reading _, .error e => .done (.error (.internal s!"reading upstream body chunk: {e}"))
  | .reading buf, .ok none => .done (.ok buf)
  | .reading buf, .ok (some chunk) =>
    if limit < buf.length + chunk.length then .done (.error (.upstreamBodyTooLarge limit))
    else .reading (buf ++ chunk)
  | r, _ => r

/-- What the reads of a pipe return: a read is empty only at the end. -/
def pipeReads (chunks : List (List UInt8)) : List (Except String (List UInt8)) :=
  (chunks.filter fun chunk => !chunk.isEmpty).map .ok ++ [.ok []]

/-- What the calls of `chunk()` return. -/
def bodyReads (chunks : List (List UInt8)) : List (Except String (Option (List UInt8))) :=
  chunks.map (fun chunk => .ok (some chunk)) ++ [.ok none]

/-- The shell's loop after some reads. -/
def pipeRun (limit : ℕ) (reads : List (Except String (List UInt8))) : Reader :=
  reads.foldl (readPipe limit) (.reading [])

/-- The HTTP loop after some calls of `chunk()`. -/
def bodyRun (limit : ℕ) (reads : List (Except String (Option (List UInt8)))) : Reader :=
  reads.foldl (readBody limit) (.reading [])

/-- The bytes a list of reads has delivered. -/
def pipeBytes (reads : List (Except String (List UInt8))) : List UInt8 :=
  reads.flatMap fun r => r.toOption.getD []

/-- The bytes a list of calls of `chunk()` has delivered. -/
def bodyBytes (reads : List (Except String (Option (List UInt8)))) : List UInt8 :=
  reads.flatMap fun r => (r.toOption.bind id).getD []

end Reader

/-- A stream up to a cap: the marker stands for what is past it. -/
def capped (limit : ℕ) (s : List UInt8) : List UInt8 :=
  if s.length ≤ limit then s else s.take limit ++ outputMarker

/-! ### The results depend on the stream only -/

variable {limit : ℕ} {buf : List UInt8} {chunks : List (List UInt8)}

theorem capOutputFrom_eq (h : buf.length ≤ limit) :
    capOutputFrom limit none buf chunks = .ok (capped limit (buf ++ chunks.flatten)) := by
  induction chunks generalizing buf with
  | nil =>
    have hall : (buf ++ ([] : List (List UInt8)).flatten).length ≤ limit := by simpa using h
    rw [capOutputFrom, capped, if_pos hall, List.flatten_nil, List.append_nil]
  | cons chunk chunks ih =>
    rw [capOutputFrom, List.flatten_cons, ← List.append_assoc]
    split_ifs with hcap
    · -- the cap falls into this chunk
      have hlong : ¬ ((buf ++ chunk) ++ chunks.flatten).length ≤ limit := by
        rw [List.length_append, List.length_append]
        omega
      have htake : ((buf ++ chunk) ++ chunks.flatten).take limit =
          buf ++ chunk.take (limit - buf.length) := by
        rw [List.take_append_of_le_length (by rw [List.length_append]; omega), List.take_append,
          List.take_of_length_le h]
      rw [capped, if_neg hlong, htake]
    · exact ih (by rw [List.length_append]; omega)

/-- The shell's reader returns the stream up to the cap, however it is cut into chunks. -/
theorem capOutput_eq (limit : ℕ) (chunks : List (List UInt8)) :
    capOutput limit ⟨chunks, none⟩ = .ok (capped limit chunks.flatten) :=
  capOutputFrom_eq (Nat.zero_le limit)

theorem readBoundedFrom_eq (h : buf.length ≤ limit) :
    readBoundedFrom limit none buf chunks =
      if (buf ++ chunks.flatten).length ≤ limit then .ok (buf ++ chunks.flatten)
      else .error (.upstreamBodyTooLarge limit) := by
  induction chunks generalizing buf with
  | nil =>
    have hall : (buf ++ ([] : List (List UInt8)).flatten).length ≤ limit := by simpa using h
    rw [readBoundedFrom, if_pos hall, List.flatten_nil, List.append_nil]
  | cons chunk chunks ih =>
    rw [readBoundedFrom, List.flatten_cons, ← List.append_assoc]
    split_ifs with hcap hall hall
    · rw [List.length_append, List.length_append] at hall
      omega
    · rfl
    · rw [ih (by rw [List.length_append]; omega), if_pos hall]
    · rw [ih (by rw [List.length_append]; omega), if_neg hall]

/-- The HTTP reader returns the decoded stream when it is within the cap, however it is cut into
chunks, and refuses it otherwise. -/
theorem readBounded_eq (limit : ℕ) (chunks : List (List UInt8)) :
    readBounded limit ⟨chunks, none⟩ =
      if chunks.flatten.length ≤ limit then .ok (String.ofList (fromUtf8Lossy chunks.flatten))
      else .error (.upstreamBodyTooLarge limit) := by
  have hfrom := @readBoundedFrom_eq limit [] chunks (Nat.zero_le limit)
  rw [List.nil_append] at hfrom
  rw [readBounded, hfrom]
  split_ifs with hall
  · rfl
  · rfl

namespace Reader

/-! ### The loops end with these results -/

theorem foldl_readPipe_draining (limit : ℕ) (buf : List UInt8) (chunks : List (List UInt8)) :
    (pipeReads chunks).foldl (readPipe limit) (.draining buf) = .done (.ok buf) := by
  induction chunks with
  | nil => rfl
  | cons chunk chunks ih =>
    cases chunk with
    | nil => exact ih
    | cons b chunk => exact ih

theorem foldl_readPipe_reading (h : buf.length ≤ limit) :
    (pipeReads chunks).foldl (readPipe limit) (.reading buf) =
      .done (capOutputFrom limit none buf chunks) := by
  induction chunks generalizing buf with
  | nil => rfl
  | cons chunk chunks ih =>
    cases chunk with
    | nil =>
      have hroom : ¬ limit < buf.length + ([] : List UInt8).length := by
        rw [List.length_nil]
        omega
      rw [capOutputFrom, if_neg hroom, List.append_nil]
      exact ih h
    | cons b chunk =>
      rw [capOutputFrom]
      show (pipeReads chunks).foldl (readPipe limit) (readPipe limit (.reading buf) (.ok _)) = _
      rw [readPipe]
      split_ifs with hcap
      · exact foldl_readPipe_draining limit _ chunks
      · exact ih (by rw [List.length_append]; omega)

/-- The shell's loop over the reads of a stream returns `capOutput` of it. -/
theorem pipeRun_eq (limit : ℕ) (chunks : List (List UInt8)) :
    pipeRun limit (pipeReads chunks) = .done (capOutput limit ⟨chunks, none⟩) :=
  foldl_readPipe_reading (Nat.zero_le limit)

theorem foldl_readBody_done (limit : ℕ) (r : Except CronManagerError (List UInt8))
    (reads : List (Except String (Option (List UInt8)))) :
    reads.foldl (readBody limit) (.done r) = .done r := by
  induction reads with
  | nil => rfl
  | cons read reads ih => exact ih

theorem foldl_readBody_reading :
    (bodyReads chunks).foldl (readBody limit) (.reading buf) =
      .done (readBoundedFrom limit none buf chunks) := by
  induction chunks generalizing buf with
  | nil => rfl
  | cons chunk chunks ih =>
    rw [readBoundedFrom]
    show (bodyReads chunks).foldl (readBody limit) (readBody limit (.reading buf) (.ok _)) = _
    rw [readBody]
    split_ifs with hcap
    · exact foldl_readBody_done limit _ _
    · exact ih

/-- The HTTP loop over the chunks of a stream returns `readBoundedFrom` of them. -/
theorem bodyRun_eq (limit : ℕ) (chunks : List (List UInt8)) :
    bodyRun limit (bodyReads chunks) = .done (readBoundedFrom limit none [] chunks) :=
  foldl_readBody_reading

/-! ### What the buffer holds -/

/-- The buffer of a reader that was given `stream` so far: what it keeps of the stream is a start
of it and within the cap, and only the marker may follow. -/
def Bounded (limit : ℕ) (stream : List UInt8) : Reader → Prop
  | .reading buf => buf = stream ∧ buf.length ≤ limit
  | .draining buf => ∃ kept, kept <+: stream ∧ kept.length ≤ limit ∧ buf = kept ++ outputMarker
  | .done (.ok buf) => ∃ kept, kept <+: stream ∧ kept.length ≤ limit ∧
    (buf = kept ∨ buf = kept ++ outputMarker)
  | .done (.error _) => True

variable {stream more : List UInt8} {r : Reader}

theorem Bounded.done_append {res : Except CronManagerError (List UInt8)}
    (h : (Reader.done res).Bounded limit stream) :
    (Reader.done res).Bounded limit (stream ++ more) := by
  cases res with
  | error e => trivial
  | ok buf =>
    obtain ⟨kept, hpre, hlen, hbuf⟩ := h
    exact ⟨kept, hpre.trans (List.prefix_append _ _), hlen, hbuf⟩

theorem Bounded.readPipe (h : r.Bounded limit stream) (read : Except String (List UInt8)) :
    (r.readPipe limit read).Bounded limit (stream ++ read.toOption.getD []) := by
  cases r with
  | done res => exact h.done_append
  | draining buf =>
    obtain ⟨kept, hpre, hlen, hbuf⟩ := h
    have hpre' := hpre.trans (List.prefix_append stream (read.toOption.getD []))
    match read with
    | .error e => exact ⟨kept, hpre', hlen, .inr hbuf⟩
    | .ok [] => exact ⟨kept, hpre', hlen, .inr hbuf⟩
    | .ok (b :: chunk) => exact ⟨kept, hpre', hlen, hbuf⟩
  | reading buf =>
    obtain ⟨rfl, hlen⟩ := h
    match read with
    | .error e => trivial
    | .ok [] => exact ⟨buf, List.prefix_append _ _, hlen, .inl rfl⟩
    | .ok (b :: chunk) =>
      rw [Reader.readPipe]
      split_ifs with hcap
      · refine ⟨_, ?_, ?_, rfl⟩
        · exact (List.prefix_append_right_inj buf).2 (List.take_prefix _ _)
        · rw [List.length_append, List.length_take]
          omega
      · exact ⟨rfl, by rw [List.length_append]; omega⟩

theorem Bounded.readBody (h : r.Bounded limit stream)
    (read : Except String (Option (List UInt8))) :
    (r.readBody limit read).Bounded limit (stream ++ (read.toOption.bind id).getD []) := by
  cases r with
  | done res => exact h.done_append
  | draining buf =>
    obtain ⟨kept, hpre, hlen, hbuf⟩ := h
    exact ⟨kept, hpre.trans (List.prefix_append _ _), hlen, hbuf⟩
  | reading buf =>
    obtain ⟨rfl, hlen⟩ := h
    match read with
    | .error e => trivial
    | .ok none => exact ⟨buf, List.prefix_append _ _, hlen, .inl rfl⟩
    | .ok (some chunk) =>
      rw [Reader.readBody]
      split_ifs with hcap
      · trivial
      · exact ⟨rfl, by rw [List.length_append]; omega⟩

theorem Bounded.foldl {ρ : Type} {step : Reader → ρ → Reader} {delivered : ρ → List UInt8}
    (hstep : ∀ r stream read, Reader.Bounded limit stream r →
      Reader.Bounded limit (stream ++ delivered read) (step r read))
    (reads : List ρ) (h : r.Bounded limit stream) :
    (reads.foldl step r).Bounded limit (stream ++ reads.flatMap delivered) := by
  induction reads generalizing r stream with
  | nil => simpa using h
  | cons read reads ih =>
    rw [List.foldl_cons, List.flatMap_cons, ← List.append_assoc]
    exact ih (hstep r stream read h)

theorem bounded_reading_nil (limit : ℕ) : (Reader.reading []).Bounded limit [] :=
  ⟨rfl, Nat.zero_le limit⟩

theorem bounded_pipeRun (limit : ℕ) (reads : List (Except String (List UInt8))) :
    (pipeRun limit reads).Bounded limit (pipeBytes reads) :=
  Bounded.foldl (fun _ _ read h => h.readPipe read) reads (bounded_reading_nil limit)

theorem bounded_bodyRun (limit : ℕ) (reads : List (Except String (Option (List UInt8)))) :
    (bodyRun limit reads).Bounded limit (bodyBytes reads) :=
  Bounded.foldl (fun _ _ read h => h.readBody read) reads (bounded_reading_nil limit)

end Reader

/-- **The bounded readers do not depend on the chunks.**  The shell's loop returns the stream, or
its first `limit` bytes and the marker; the HTTP loop decodes the stream exactly when it has at
most `limit` bytes.  After any reads, failed ones included, neither buffer holds more than `limit`
bytes of the stream. -/
theorem read_bounded_chunking (limit : ℕ) (chunks : List (List UInt8)) :
    (Reader.pipeRun limit (Reader.pipeReads chunks) =
        .done (capOutput limit ⟨chunks, none⟩) ∧
      capOutput limit ⟨chunks, none⟩ = .ok (if chunks.flatten.length ≤ limit then chunks.flatten
        else chunks.flatten.take limit ++ outputMarker)) ∧
    (readBounded limit ⟨chunks, none⟩ =
        (readBoundedFrom limit none [] chunks).map
          (fun bs => String.ofList (fromUtf8Lossy bs)) ∧
      Reader.bodyRun limit (Reader.bodyReads chunks) =
        .done (readBoundedFrom limit none [] chunks) ∧
      readBounded limit ⟨chunks, none⟩ =
        if chunks.flatten.length ≤ limit then .ok (String.ofList (fromUtf8Lossy chunks.flatten))
        else .error (.upstreamBodyTooLarge limit)) ∧
    (∀ reads, (Reader.pipeRun limit reads).Bounded limit (Reader.pipeBytes reads)) ∧
    ∀ reads, (Reader.bodyRun limit reads).Bounded limit (Reader.bodyBytes reads) :=
  ⟨⟨Reader.pipeRun_eq limit chunks, capOutput_eq limit chunks⟩,
    ⟨rfl, Reader.bodyRun_eq limit chunks, readBounded_eq limit chunks⟩,
    Reader.bounded_pipeRun limit, Reader.bounded_bodyRun limit⟩

end CronManager

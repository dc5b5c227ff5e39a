import Assignment.Reference
import Assignment.Socket.Termination

/-!
# What the server prints on arbitrary input

A stream that is there in full before the first peek, whatever its bytes.
`cut` takes it apart the way the framing is meant, and `expected` are the
packets in it; the handler prints one packet an iteration instead, also for
a body that fails to parse and for whatever is left where the cut stops.
So what it prints is right exactly when nothing is left and every body
parses (`sound_iff`).
-/

namespace Assignment.Socket

open Buffer

namespace Session

variable {rt : Runtime}

/-- Every peek sees all of its four bytes that the stream still has, and no
`recv` fails. -/
def inFull (garbage : Nat → Nat → UInt8) (i : Nat) : Arrival := ⟨.sees 3, .sees 0, garbage i⟩

/-- The packets printed for a stream without failing receives; by then the
handler has returned (`finished_after`). -/
def printed (rt : Runtime) (env : Nat → Arrival) (stream : Bytes) : List LogPacket :=
  messages (run rt env (stream.length + 1) (start stream)).handler.out

/-- The frames of a stream, as the bytes of their bodies, and what is left
where fewer than four bytes remain, the four bytes hold no complete varint,
or the frame is cut short. -/
def cut (rt : Runtime) : Nat → Bytes → List Bytes × Bytes
  | 0, stream => ([], stream)
  | fuel + 1, stream =>
      if stream.length < 4 then ([], stream)
      else
        let v := rt.readVarint32 (stream.take 4)
        if v.ok = false ∨ stream.length < v.value.toNat + 4 then ([], stream)
        else
          let r := cut rt fuel (stream.drop (v.value.toNat + 4))
          ((v.rest ++ stream.drop 4).take v.value.toNat :: r.1, r.2)

/-- The packets of the frames whose bodies parse. -/
def expected (rt : Runtime) (stream : Bytes) : List LogPacket :=
  (cut rt stream.length stream).1.filterMap fun body =>
    if (LogPacket.parseFromCodedStream rt body).2 then
      some (LogPacket.parseFromCodedStream rt body).1
    else none

/-! ## The output only grows -/

theorem onRecv_out (stack : Nat → UInt8) (h : Handler) (r : RecvResult) :
    h.out <+: (h.onRecv rt stack r).out := by
  unfold Handler.onRecv
  split
  · split
    · exact List.prefix_refl _
    · exact ⟨_, (List.append_assoc _ _ _).symm⟩
  · exact List.prefix_append _ _
  · exact List.prefix_refl _

theorem act_out (stack : Nat → UInt8) (choice : Choice) (s : Session) :
    s.handler.out <+: (act rt stack choice s).handler.out := by
  unfold act
  split
  · split
    · exact onRecv_out stack s.handler _
    · exact List.prefix_refl _
  · split <;> exact List.prefix_refl _

theorem run_out (env : Nat → Arrival) (n : Nat) (s : Session) :
    s.handler.out <+: (run rt env n s).handler.out := by
  induction n with
  | zero => exact List.prefix_refl _
  | succ n ih =>
      rw [run_succ]
      exact ih.trans ((act_out _ _ _).trans (act_out _ _ _))

theorem messages_prefix {out out' : List Line} (h : out <+: out') :
    messages out <+: messages out' := by
  obtain ⟨more, rfl⟩ := h
  rw [messages_append]
  exact List.prefix_append _ _

/-! ## One frame of the cut -/

theorem inFull_failures (garbage : Nat → Nat → UInt8) (i : Nat) :
    (inFull garbage i).failures = 0 := rfl

theorem failures_inFull (garbage : Nat → Nat → UInt8) (n : Nat) :
    failures (inFull garbage) n = 0 := by
  induction n generalizing garbage with
  | zero => rfl
  | succ n ih =>
      rw [failures, inFull_failures]
      exact (Nat.zero_add _).trans (ih fun i => garbage (i + 1))

/-- The four bytes of a full peek replace the header. -/
theorem sizeRead_inFull {stream : Bytes} (h4 : ¬ stream.length < 4) (buffer : Header) :
    sizeRead rt buffer stream (.sees 3) = (rt.readVarint32 (stream.take 4)).value := by
  have hlen : (stream.take 4).length = buffer.bytes.length := by
    rw [List.length_take, buffer.length_eq]
    omega
  rw [sizeRead, readHdr]
  simp only [Choice.peeked, Header.fill, Nat.reduceAdd, Nat.min_self, overwrite_of_length_eq hlen,
    List.take_take]

/-- **A frame of the cut**: the iteration takes exactly the frame and prints
what its body parses to, or has been parsed to when it fails. -/
theorem iterate_cut (hrt : rt.Documented) {stream : Bytes} (h4 : ¬ stream.length < 4)
    (hok : (rt.readVarint32 (stream.take 4)).ok = true)
    (hlen : ¬ stream.length < (rt.readVarint32 (stream.take 4)).value.toNat + 4)
    (stack : Nat → UInt8) (buffer : Header) (out : List Line) :
    ∃ buffer' out', messages out' = messages out ++ [(LogPacket.parseFromCodedStream rt
          (((rt.readVarint32 (stream.take 4)).rest ++ stream.drop 4).take
            (rt.readVarint32 (stream.take 4)).value.toNat)).1]
      ∧ iterate rt ⟨.sees 3, .sees 0, stack⟩ (atHead buffer out stream)
        = atHead buffer' out'
            (stream.drop ((rt.readVarint32 (stream.take 4)).value.toNat + 4)) := by
  have hfour : (stream.take 4).length ≤ 4 := by
    rw [List.length_take]
    omega
  obtain ⟨n, rest, hread, hn⟩ : ∃ n rest, rt.readVarint32 (stream.take 4) = ⟨true, n, rest⟩
      ∧ n.toNat < 2 ^ 28 := by
    rcases hrt.readVarint32_four hfour with ⟨n, rest, hread, hn, -⟩ | ⟨hfail, -⟩
    · exact ⟨n, rest, hread, hn⟩
    · rw [hfail] at hok
      cases hok
  have hsize : sizeRead rt buffer stream (.sees 3) = n := by
    rw [sizeRead_inFull h4, hread]
  have hbody : bodyLength rt buffer stream (.sees 3) = n.toNat + 4 := by
    rw [bodyLength, hsize, bodyLength_of_lt hn]
  simp only [hread] at hlen ⊢
  -- the received block is the four bytes of the header and `n` more
  have htaken : stream.take (n.toNat + 4) = stream.take 4 ++ (stream.drop 4).take n.toNat := by
    rw [Nat.add_comm, List.take_add]
  have hwhole := hrt.varint_local _ _ _ ((stream.drop 4).take n.toNat) hread
  rw [← htaken] at hwhole
  have hpayload : (rest ++ (stream.drop 4).take n.toNat).take n.toNat
      = (rest ++ stream.drop 4).take n.toNat := by
    rw [List.take_append, List.take_append, List.take_take, Nat.min_eq_left (Nat.sub_le _ _)]
  have hfull : (stream.take (n.toNat + 4)).length = (uninitialised n stack).length := by
    rw [List.length_take, uninitialised_length, bufferLength_eq, bodyLength_of_lt hn]
    omega
  have hdecode := decodeBody_complete hrt hwhole (by omega) (by
    rw [List.length_append, List.length_take, List.length_drop]
    omega) []
  rw [List.append_nil, hpayload] at hdecode
  have hne : stream ≠ [] := by
    rintro rfl
    simp at h4
  refine ⟨buffer.fill (Choice.peeked 4 stream (.sees 3)),
    out ++ turnLines rt ⟨.sees 3, .sees 0, stack⟩ buffer stream, ?_, ?_⟩
  · rw [messages_append, messages_turnLines, turnMessage]
    simp only [hsize, hbody, Choice.taken, overwrite_of_length_eq hfull, hdecode]
  · rw [iterate_turn _ _ _ _ (.inr hne)]
    simp only [hbody, Choice.left]

/-- Whatever is left, be it one byte, makes the handler print. -/
theorem prints_of_ne_nil (hrt : rt.Documented) (garbage : Nat → Nat → UInt8) {stream : Bytes}
    (hne : stream ≠ []) (buffer : Header) (out : List Line) :
    ∃ n buffer' out' extra, run rt (inFull garbage) n (atHead buffer out stream)
        = finished buffer' out'
      ∧ messages out' = messages out ++ extra ∧ extra ≠ [] := by
  obtain ⟨m, -, buffer', out', hfinished⟩ := atHead_ends hrt _ 0 (inFull garbage) buffer out
    stream (fun n => Nat.le_of_eq (failures_inFull garbage n)) (Nat.le_refl _)
  obtain ⟨n, -, hrun⟩ := run_finished_succ hfinished
  have hgrow := messages_prefix (@run_out rt (fun i => inFull garbage (i + 1)) n
    (iterate rt (inFull garbage 0) (atHead buffer out stream)))
  rw [hrun, iterate_turn _ _ _ _ (.inr hne)] at hgrow
  obtain ⟨more, hmore⟩ := hgrow
  refine ⟨n + 1, buffer', out', turnMessage rt (inFull garbage 0) buffer stream :: more,
    hrun, ?_, by simp⟩
  simp only [atHead, finished, messages_append, messages_turnLines, List.append_assoc,
    List.singleton_append] at hmore
  exact hmore.symm

/-- One packet for every frame of the cut, and at least one more when
anything is left. -/
theorem run_cut (hrt : rt.Documented) :
    ∀ (fuel : Nat) (stream : Bytes) (garbage : Nat → Nat → UInt8) (buffer : Header)
      (out : List Line), stream.length ≤ fuel →
      ∃ n buffer' out' extra, run rt (inFull garbage) n (atHead buffer out stream)
          = finished buffer' out'
        ∧ messages out' = messages out ++ ((cut rt fuel stream).1.map fun body =>
            (LogPacket.parseFromCodedStream rt body).1) ++ extra
        ∧ (extra = [] ↔ (cut rt fuel stream).2 = []) := by
  -- where the cut stops
  have hstop : ∀ (stream : Bytes) (garbage : Nat → Nat → UInt8) (buffer : Header)
      (out : List Line), ∃ n buffer' out' extra,
        run rt (inFull garbage) n (atHead buffer out stream) = finished buffer' out'
        ∧ messages out' = messages out ++ extra ∧ (extra = [] ↔ stream = []) := by
    intro stream garbage buffer out
    by_cases hnil : stream = []
    · subst hnil
      exact ⟨1, buffer, out, [], iterate_break (inFull garbage 0) rfl buffer out, by simp, by simp⟩
    · obtain ⟨n, buffer', out', extra, hrun, hmsgs, hextra⟩ :=
        prints_of_ne_nil hrt garbage hnil buffer out
      exact ⟨n, buffer', out', extra, hrun, hmsgs, by simp [hextra, hnil]⟩
  intro fuel
  induction fuel with
  | zero =>
      intro stream garbage buffer out _
      simpa [cut] using hstop stream garbage buffer out
  | succ fuel ih =>
      intro stream garbage buffer out hfuel
      rw [cut]
      by_cases h4 : stream.length < 4
      · rw [if_pos h4]
        simpa using hstop stream garbage buffer out
      · rw [if_neg h4]
        simp only
        split
        · simpa using hstop stream garbage buffer out
        · -- a frame: one iteration prints it, the rest of the stream is the rest of the cut
          rename_i hgo
          rw [not_or, Bool.not_eq_false] at hgo
          obtain ⟨buffer₁, out₁, hout₁, hturn⟩ :=
            iterate_cut hrt h4 hgo.1 hgo.2 (garbage 0) buffer out
          obtain ⟨n, buffer', out', extra, hrun, hmsgs, hextra⟩ := ih
            (stream.drop ((rt.readVarint32 (stream.take 4)).value.toNat + 4))
            (fun i => garbage (i + 1)) buffer₁ out₁ (by
              rw [List.length_drop]
              omega)
          refine ⟨n + 1, buffer', out', extra, ?_, ?_, hextra⟩
          · rw [run]
            change run rt _ n (iterate rt ⟨.sees 3, .sees 0, garbage 0⟩ _) = _
            rw [hturn]
            exact hrun
          · rw [hmsgs, hout₁]
            simp

/-! ## The whole stream -/

/-- The handler has returned after one iteration a byte and one more. -/
theorem finished_after (hrt : rt.Documented) (env : Nat → Arrival) (stream : Bytes)
    (henv : ∀ n, failures env n = 0) {n : Nat} {buffer : Header} {out : List Line}
    (hrun : run rt env n (start stream) = finished buffer out) :
    run rt env (stream.length + 1) (start stream) = finished buffer out := by
  obtain ⟨m, hm, buffer', out', hrun'⟩ := atHead_ends hrt stream.length 0 env .zero [] stream
    (fun n => Nat.le_of_eq (henv n)) (Nat.le_refl _)
  rw [← start_eq] at hrun'
  -- both runs stay where they are, so they agree after `n + m` iterations
  have hn : run rt env (n + m) (start stream) = finished buffer out := by
    rw [run_add, hrun, run_finished]
  have hm' : run rt env (m + n) (start stream) = finished buffer' out' := by
    rw [run_add, hrun', run_finished]
  rw [Nat.add_comm, hm'] at hn
  obtain ⟨d, hd⟩ := Nat.exists_eq_add_of_le hm
  rw [hd, run_add, hrun', run_finished, hn]

/-- **Soundness on arbitrary input, exactly**: the handler prints the packets
of the frames that parse, and nothing else, if and only if every frame
parses and no byte is left behind the last one. -/
theorem sound_iff (hrt : rt.Documented) (garbage : Nat → Nat → UInt8) (stream : Bytes) :
    printed rt (inFull garbage) stream = expected rt stream
      ↔ (∀ body ∈ (cut rt stream.length stream).1,
            (LogPacket.parseFromCodedStream rt body).2 = true)
          ∧ (cut rt stream.length stream).2 = [] := by
  obtain ⟨n, buffer, out, extra, hrun, hmsgs, hextra⟩ :=
    run_cut hrt stream.length stream garbage .zero [] (Nat.le_refl _)
  have hprinted : printed rt (inFull garbage) stream = (cut rt stream.length stream).1.map
      (fun body => (LogPacket.parseFromCodedStream rt body).1) ++ extra := by
    rw [printed, finished_after hrt (inFull garbage) stream (failures_inFull garbage) hrun]
    exact hmsgs
  rw [hprinted, expected, ← hextra]
  generalize (cut rt stream.length stream).1 = frames
  constructor
  · -- the handler prints for every frame and for the tail, so the counts decide
    intro h
    have hcount := congrArg List.length h
    rw [List.length_append, List.length_map] at hcount
    have hle := List.length_filterMap_le (fun body =>
      if (LogPacket.parseFromCodedStream rt body).2 then
        some (LogPacket.parseFromCodedStream rt body).1 else none) frames
    refine ⟨fun body hbody => ?_, List.length_eq_zero_iff.mp (by omega)⟩
    have hall := List.filterMap_length_eq_length.mp (Nat.le_antisymm hle (by omega)) body hbody
    by_contra hfails
    simp [hfails] at hall
  · rintro ⟨hall, rfl⟩
    rw [List.append_nil]
    induction frames with
    | nil => rfl
    | cons body frames ih =>
        rw [List.filterMap_cons, if_pos (hall body (by simp)), List.map_cons,
          ih (fun b hb => hall b (by simp [hb]))]

/-- Two frames, the second one empty. -/
theorem sound_two :
    printed reference (inFull fun _ _ => 5) [3, 0x0A, 1, 0x61, 0, 0, 0, 0, 0, 0, 0]
      = expected reference [3, 0x0A, 1, 0x61, 0, 0, 0, 0, 0, 0, 0] :=
  (sound_iff reference_documented _ _).mpr (by decide +kernel)

/-- A frame whose body, a string cut short, does not parse: the handler
prints a packet all the same. -/
theorem unparsed_printed :
    ¬ ∀ (garbage : Nat → Nat → UInt8) (stream : Bytes),
      printed reference (inFull garbage) stream = expected reference stream := by
  intro h
  exact absurd (h (fun _ _ => 0) [2, 0x0A, 5, 0, 0, 0]) (by decide +kernel)

end Session

end Assignment.Socket

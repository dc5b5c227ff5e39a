import Assignment.Socket.Client
import Assignment.Socket.Termination

/-!
# Stream delivery

Frames of the client sent back to back on one connection, and the loop of
the handler over them. The header buffer keeps what earlier peeks stored,
so an iteration reads the right size exactly when the peeked prefix of the
frame, laid over those bytes, decodes to it (`HeadersRead`). The proof
follows the list of frames: one iteration takes one frame off the stream,
or it leaves the frame boundaries or swallows a message.
-/

namespace Assignment.Socket

/-- A packet and the heap content its block is built in. -/
abbrev Sent := LogPacket × (Nat → UInt8)

namespace Session

open Client

variable {rt : Runtime}

/-- The bytes of the frames, back to back. -/
def stream (rt : Runtime) (sent : List Sent) : Bytes :=
  sent.flatMap fun p => pkt rt p.1 p.2

/-- Text packets of less than `2^28` bytes. -/
def Sendable (rt : Runtime) (sent : List Sent) : Prop :=
  ∀ p ∈ sent, p.1.Text rt ∧ p.1.byteSizeLong rt < 2 ^ 28

/-- What is left unread is a whole number of the last frames. -/
def AtBoundary (rt : Runtime) (sent : List Sent) (unread : Bytes) : Prop :=
  ∃ tail, tail <:+ sent ∧ unread = stream rt tail

/-- The handler prints exactly the packets that were sent, in their order,
and stands at a frame boundary after every iteration. -/
structure Delivered (rt : Runtime) (sent : List Sent) (env : Nat → Arrival) : Prop where
  boundary : ∀ n, AtBoundary rt sent (run rt env n (start (stream rt sent))).connection.unread
  prints : ∃ n buffer out, run rt env n (start (stream rt sent)) = finished buffer out
    ∧ messages out = sent.map Prod.fst

/-- Every iteration reads the size of the frame it stands at; the last one
may read a larger size. -/
def HeadersRead (rt : Runtime) : Header → List Sent → (Nat → Arrival) → Prop
  | _, [], _ => True
  | buffer, p :: ps, env =>
      let siz := sizeRead rt buffer (stream rt (p :: ps)) (env 0).peek
      (siz = UInt32.ofNat (p.1.byteSizeLong rt)
        ∨ ps = [] ∧ p.1.byteSizeLong rt ≤ siz.toNat ∧ siz ≠ 0xFFFFFFFF)
      ∧ HeadersRead rt (buffer.fill ((env 0).peek.peeked 4 (stream rt (p :: ps)))) ps
          (fun i => env (i + 1))

theorem stream_cons (p : Sent) (ps : List Sent) :
    stream rt (p :: ps) = pkt rt p.1 p.2 ++ stream rt ps := rfl

theorem Sendable.tail {p : Sent} {ps : List Sent} (h : Sendable rt (p :: ps)) :
    Sendable rt ps := fun q hq => h q (by simp [hq])

theorem Sendable.suffix {sent tail : List Sent} (h : Sendable rt sent) (ht : tail <:+ sent) :
    Sendable rt tail := fun q hq => h q (ht.subset hq)

/-! ## Frame boundaries -/

section
variable (hrt : rt.Documented)
include hrt

theorem frame_length {p : Sent} (hp : p.1.byteSizeLong rt < 2 ^ 28) :
    (pkt rt p.1 p.2).length = p.1.byteSizeLong rt + 4 :=
  pkt_length hrt p.2 (by omega)

/-- Frames are not empty, so longer tails have longer streams. -/
theorem stream_length_lt {sent tail : List Sent} (hs : Sendable rt sent)
    (ht : tail <:+ sent) (hne : tail ≠ sent) :
    (stream rt tail).length < (stream rt sent).length := by
  induction sent with
  | nil => exact absurd (List.suffix_nil.mp ht) hne
  | cons p ps ih =>
      have hp := frame_length hrt (hs p (by simp)).2
      rw [stream_cons, List.length_append]
      rcases List.suffix_cons_iff.mp ht with heq | hps
      · exact absurd heq hne
      · by_cases htail : tail = ps
        · rw [htail]
          omega
        · have := ih hs.tail hps htail
          omega

/-- Of two boundaries the one with fewer bytes left is the later one. -/
theorem suffix_of_stream_length_le {sent tail tail' : List Sent} (hs : Sendable rt sent)
    (ht : tail <:+ sent) (ht' : tail' <:+ sent)
    (hle : (stream rt tail').length ≤ (stream rt tail).length) : tail' <:+ tail := by
  rcases List.suffix_or_suffix_of_suffix ht' ht with h | h
  · exact h
  · by_cases heq : tail = tail'
    · exact heq ▸ List.suffix_refl _
    · have := stream_length_lt hrt (hs.suffix ht') h heq
      omega

/-! ## One iteration -/

theorem bodyLength_eq_iff {buffer : Header} {unread : Bytes} {peek : Choice} {n : Nat}
    (hn : n < 2 ^ 28) :
    bodyLength rt buffer unread peek = n + 4
      ↔ sizeRead rt buffer unread peek = UInt32.ofNat n := by
  have hsize : (UInt32.ofNat n).toNat = n :=
    UInt32.toNat_ofNat_of_lt' (show n < 2 ^ 32 by omega)
  rw [bodyLength]
  rcases readHdr_cases hrt (buffer.fill (peek.peeked 4 unread)).bytes with hlt | heq
  · rw [← sizeRead] at hlt
    rw [bodyLength_of_lt hlt, ← UInt32.toNat_inj, hsize]
    omega
  · rw [← sizeRead] at heq
    rw [heq, bodyLength_incomplete, ← UInt32.toNat_inj, hsize]
    have hmax : (0xFFFFFFFF : UInt32).toNat = 2 ^ 32 - 1 := rfl
    omega

theorem le_bodyLength_iff {buffer : Header} {unread : Bytes} {peek : Choice} {n : Nat} :
    n + 4 ≤ bodyLength rt buffer unread peek
      ↔ n ≤ (sizeRead rt buffer unread peek).toNat
        ∧ sizeRead rt buffer unread peek ≠ 0xFFFFFFFF := by
  have hmax : (0xFFFFFFFF : UInt32).toNat = 2 ^ 32 - 1 := rfl
  rw [bodyLength]
  rcases readHdr_cases hrt (buffer.fill (peek.peeked 4 unread)).bytes with hlt | heq
  · rw [← sizeRead] at hlt
    have hne : sizeRead rt buffer unread peek ≠ 0xFFFFFFFF := by
      intro hc
      rw [hc] at hlt
      omega
    rw [bodyLength_of_lt hlt]
    simp [hne]
  · rw [← sizeRead] at heq
    rw [heq, bodyLength_incomplete]
    simp

omit hrt in
/-- Without failures an iteration takes `4+siz` bytes off the stream. -/
theorem iterate_drop {a : Arrival} (ha : a.failures = 0) (buffer : Header) (out : List Line)
    {unread : Bytes} (hne : unread ≠ []) :
    iterate rt a (atHead buffer out unread)
        = atHead (buffer.fill (a.peek.peeked 4 unread)) (out ++ turnLines rt a buffer unread)
            (unread.drop (bodyLength rt buffer unread a.peek))
      ∧ turnMessage rt a buffer unread = decodeBody rt (Buffer.overwrite
          (uninitialised (sizeRead rt buffer unread a.peek) a.stack)
          (unread.take (bodyLength rt buffer unread a.peek))) := by
  have hbody := (failures_eq_zero ha).2
  rw [iterate_turn _ _ _ _ (.inr hne), turnMessage]
  cases hb : a.body with
  | fails => simp [hb, Choice.isFailure] at hbody
  | sees k => exact ⟨rfl, rfl⟩

theorem stream_cons_ne_nil {p : Sent} (hn : p.1.byteSizeLong rt < 2 ^ 28) (ps : List Sent) :
    stream rt (p :: ps) ≠ [] := by
  have hlen := frame_length hrt (p := p) hn
  intro hc
  rw [stream_cons, List.append_eq_nil_iff] at hc
  rw [hc.1, List.length_nil] at hlen
  omega

/-- An iteration that receives the frame it stands at, and of the last frame
at least that much, prints the packet of the frame. -/
theorem iterate_frame {p : Sent} {ps : List Sent} (hp : p.1.Text rt)
    (hn : p.1.byteSizeLong rt < 2 ^ 28) {a : Arrival} (ha : a.failures = 0) (buffer : Header)
    (out : List Line)
    (hread : sizeRead rt buffer (stream rt (p :: ps)) a.peek
        = UInt32.ofNat (p.1.byteSizeLong rt)
      ∨ ps = [] ∧ p.1.byteSizeLong rt
          ≤ (sizeRead rt buffer (stream rt (p :: ps)) a.peek).toNat
        ∧ sizeRead rt buffer (stream rt (p :: ps)) a.peek ≠ 0xFFFFFFFF) :
    ∃ out', messages out' = messages out ++ [p.1]
      ∧ iterate rt a (atHead buffer out (stream rt (p :: ps)))
        = atHead (buffer.fill (a.peek.peeked 4 (stream rt (p :: ps)))) out' (stream rt ps) := by
  have hlen := frame_length hrt (p := p) hn
  -- the receive asks for at least the frame, and stores exactly the frame
  obtain ⟨hle, htake, hdrop⟩ : (pkt rt p.1 p.2).length
        ≤ bodyLength rt buffer (stream rt (p :: ps)) a.peek
      ∧ (stream rt (p :: ps)).take (bodyLength rt buffer (stream rt (p :: ps)) a.peek)
        = pkt rt p.1 p.2
      ∧ (stream rt (p :: ps)).drop (bodyLength rt buffer (stream rt (p :: ps)) a.peek)
        = stream rt ps := by
    rcases hread with heq | ⟨rfl, hlast⟩
    · have hL := (bodyLength_eq_iff hrt hn).mpr heq
      rw [← hlen] at hL
      exact ⟨by omega, by rw [hL, stream_cons, List.take_left],
        by rw [hL, stream_cons, List.drop_left]⟩
    · have hL := (le_bodyLength_iff hrt).mpr hlast
      have hnil : stream rt [p] = pkt rt p.1 p.2 := by simp [stream]
      have hall : (stream rt [p]).length ≤ bodyLength rt buffer (stream rt [p]) a.peek := by
        rwa [congrArg List.length hnil, hlen]
      exact ⟨by omega, by rw [List.take_of_length_le hall, hnil], List.drop_eq_nil_of_le hall⟩
  obtain ⟨hturn, hmessage⟩ := iterate_drop ha buffer out (stream_cons_ne_nil hrt hn ps)
  refine ⟨out ++ turnLines rt a buffer (stream rt (p :: ps)), ?_, by rw [hturn, hdrop]⟩
  have hfit : (pkt rt p.1 p.2).length
      ≤ (uninitialised (sizeRead rt buffer (stream rt (p :: ps)) a.peek) a.stack).length := by
    rwa [uninitialised_length, bufferLength_eq]
  rw [messages_append, messages_turnLines, hmessage, htake, Buffer.overwrite_of_le hfit,
    decodeBody_pkt hrt p.2 hp hn]

end

/-! ## The whole stream -/

/-- Correct headers deliver the frames one by one. -/
theorem delivers_of_headersRead (hrt : rt.Documented) :
    ∀ (tail : List Sent) (buffer : Header) (out : List Line) (env : Nat → Arrival),
      Sendable rt tail → (∀ i, (env i).failures = 0) → HeadersRead rt buffer tail env →
      (∀ n, AtBoundary rt tail
        (run rt env n (atHead buffer out (stream rt tail))).connection.unread)
      ∧ ∃ n buffer' out', run rt env n (atHead buffer out (stream rt tail)) = finished buffer' out'
        ∧ messages out' = messages out ++ tail.map Prod.fst := by
  intro tail
  induction tail with
  | nil =>
      intro buffer out env _ henv _
      have hbreak := @iterate_break rt (env 0) (failures_eq_zero (henv 0)).1 buffer out
      refine ⟨fun n => ⟨[], List.suffix_refl _, ?_⟩, 1, buffer, out, hbreak, by simp⟩
      cases n with
      | zero => rfl
      | succ n =>
          rw [run, stream, List.flatMap_nil, hbreak, run_finished]
          rfl
  | cons p ps ih =>
      intro buffer out env hs henv hread
      obtain ⟨hsize, hrest⟩ := hread
      have hp := hs p (by simp)
      obtain ⟨out', hout', hturn⟩ := iterate_frame hrt hp.1 hp.2 (henv 0) buffer out hsize
      obtain ⟨hboundary, n, buffer'', out'', hrun, hmsgs⟩ :=
        ih _ out' (fun i => env (i + 1)) hs.tail (fun i => henv (i + 1)) hrest
      refine ⟨fun n => ?_, n + 1, buffer'', out'', ?_, ?_⟩
      · cases n with
        | zero => exact ⟨p :: ps, List.suffix_refl _, rfl⟩
        | succ n =>
            rw [run, hturn]
            obtain ⟨tail, htail, heq⟩ := hboundary n
            exact ⟨tail, htail.trans (List.suffix_cons p ps), heq⟩
      · rw [run, hturn, hrun]
      · rw [hmsgs, hout']
        simp

/-- A handler that keeps to the boundaries prints at most one packet a
frame. -/
theorem messages_le_of_boundary (hrt : rt.Documented) {sent : List Sent} (hs : Sendable rt sent) :
    ∀ (n : Nat) (tail : List Sent) (buffer buffer' : Header) (out out' : List Line)
      (env : Nat → Arrival), tail <:+ sent → (∀ i, (env i).failures = 0) →
      (∀ m, AtBoundary rt sent
        (run rt env m (atHead buffer out (stream rt tail))).connection.unread) →
      run rt env n (atHead buffer out (stream rt tail)) = finished buffer' out' →
      (messages out').length ≤ (messages out).length + tail.length := by
  intro n
  induction n with
  | zero =>
      intro tail buffer buffer' out out' env _ _ _ hrun
      obtain ⟨m, hzero, -⟩ := run_finished_succ hrun
      cases hzero
  | succ n ih =>
      intro tail buffer buffer' out out' env ht henv hboundary hrun
      by_cases hnil : stream rt tail = []
      · rw [hnil, run, iterate_break _ (failures_eq_zero (henv 0)).1, run_finished] at hrun
        simp only [finished, Session.mk.injEq, Handler.mk.injEq] at hrun
        rw [hrun.1.2.2.1]
        omega
      · have hturn := @iterate_turn rt (env 0) buffer out (stream rt tail) (.inr hnil)
        have hlt := (turn_progress hrt (env 0) buffer (stream rt tail) (.inr hnil)).1
        obtain ⟨tail', ht', hunread⟩ := hboundary 1
        rw [run, run, hturn] at hunread
        change (env 0).body.left _ _ = _ at hunread
        rw [hunread] at hturn hlt
        -- the boundary reached is a later one
        have hsuffix := suffix_of_stream_length_le hrt hs ht ht'
          (by rw [henv 0] at hlt; omega)
        have hne : tail' ≠ tail := by
          rintro rfl
          rw [henv 0] at hlt
          omega
        have hshort : tail'.length < tail.length := by
          rcases Nat.lt_or_ge tail'.length tail.length with h | h
          · exact h
          · exact absurd (hsuffix.eq_of_length_le h) hne
        rw [run, hturn] at hrun
        have hcount := ih tail' _ buffer' _ out' (fun i => env (i + 1)) ht'
          (fun i => henv (i + 1))
          (fun m => by
            have := hboundary (m + 1)
            rwa [run, hturn] at this) hrun
        rw [messages_append, messages_turnLines, List.length_append,
          List.length_singleton] at hcount
        omega

/-- An iteration that receives less than its frame stops inside it, where
there is no boundary. -/
theorem frame_le_of_boundary (hrt : rt.Documented) {sent : List Sent} (hs : Sendable rt sent)
    {p : Sent} {ps : List Sent} (ht : p :: ps <:+ sent) {L : Nat} (hpos : 0 < L)
    (h : AtBoundary rt sent ((stream rt (p :: ps)).drop L)) : (pkt rt p.1 p.2).length ≤ L := by
  by_contra hlt
  obtain ⟨tail', ht', hunread⟩ := h
  have hcount := congrArg List.length hunread
  rw [List.length_drop] at hcount
  have hsuffix := suffix_of_stream_length_le hrt hs ht ht' (by omega)
  rw [stream_cons, List.length_append] at hcount
  rcases List.suffix_cons_iff.mp hsuffix with rfl | hlater
  · rw [stream_cons, List.length_append] at hcount
    omega
  · by_cases hsame : tail' = ps
    · rw [hsame] at hcount
      omega
    · have := stream_length_lt hrt (hs.suffix ((List.suffix_cons p ps).trans ht)) hlater hsame
      omega

/-- One that receives more than its frame and keeps to the boundaries leaves
too few frames to print the rest of the packets from. -/
theorem eq_nil_of_frame_lt (hrt : rt.Documented) {sent : List Sent} (hs : Sendable rt sent)
    {p : Sent} {ps : List Sent} (ht : p :: ps <:+ sent) {L n : Nat} {buffer buffer' : Header}
    {out out' : List Line} {env : Nat → Arrival} (henv : ∀ i, (env i).failures = 0)
    (hboundary : ∀ m, AtBoundary rt sent (run rt env m
      (atHead buffer out ((stream rt (p :: ps)).drop L))).connection.unread)
    (hrun : run rt env n (atHead buffer out ((stream rt (p :: ps)).drop L)) = finished buffer' out')
    (hmsgs : (messages out').length = (messages out).length + ps.length)
    (hlt : (pkt rt p.1 p.2).length < L) : ps = [] := by
  by_contra hnil
  have hps : ps <:+ sent := (List.suffix_cons p ps).trans ht
  obtain ⟨tail', ht', hunread⟩ := hboundary 0
  change List.drop _ _ = _ at hunread
  have hcount := congrArg List.length hunread
  rw [List.length_drop, stream_cons, List.length_append] at hcount
  have hpos : 0 < (stream rt ps).length := by
    have := stream_length_lt hrt (hs.suffix hps) (List.nil_suffix (l := ps)) (Ne.symm hnil)
    omega
  have hsuffix := suffix_of_stream_length_le hrt hs hps ht' (by omega)
  have hshort : tail'.length < ps.length := by
    rcases Nat.lt_or_ge tail'.length ps.length with h | h
    · exact h
    · rw [hsuffix.eq_of_length_le h] at hcount
      omega
  rw [hunread] at hboundary hrun
  have hbound := messages_le_of_boundary hrt hs n tail' buffer buffer' out out' env ht' henv
    hboundary hrun
  omega

/-- **Delivery forces the headers.** -/
theorem headersRead_of_delivers (hrt : rt.Documented) {sent : List Sent} (hs : Sendable rt sent) :
    ∀ (tail : List Sent) (buffer : Header) (out : List Line) (env : Nat → Arrival),
      tail <:+ sent → (∀ i, (env i).failures = 0) →
      (∀ n, AtBoundary rt sent
        (run rt env n (atHead buffer out (stream rt tail))).connection.unread) →
      (∃ n buffer' out', run rt env n (atHead buffer out (stream rt tail)) = finished buffer' out'
        ∧ messages out' = messages out ++ tail.map Prod.fst) →
      HeadersRead rt buffer tail env := by
  intro tail
  induction tail with
  | nil => intros; trivial
  | cons p ps ih =>
      intro buffer out env ht henv hboundary hprints
      have hp := hs p (ht.subset (by simp))
      have hps : ps <:+ sent := (List.suffix_cons p ps).trans ht
      obtain ⟨hturn, -⟩ := @iterate_drop rt (env 0) (henv 0) buffer out _
        (stream_cons_ne_nil hrt hp.2 ps)
      have hnext : ∀ m, AtBoundary rt sent (run rt (fun i => env (i + 1)) m
          (iterate rt (env 0) (atHead buffer out (stream rt (p :: ps))))).connection.unread :=
        fun m => hboundary (m + 1)
      obtain ⟨m, buffer', out', hfinished, hmsgs⟩ := hprints
      obtain ⟨n, -, hrun⟩ := run_finished_succ hfinished
      have hsize : sizeRead rt buffer (stream rt (p :: ps)) (env 0).peek
            = UInt32.ofNat (p.1.byteSizeLong rt)
          ∨ ps = [] ∧ p.1.byteSizeLong rt
              ≤ (sizeRead rt buffer (stream rt (p :: ps)) (env 0).peek).toNat
            ∧ sizeRead rt buffer (stream rt (p :: ps)) (env 0).peek ≠ 0xFFFFFFFF := by
        rw [hturn] at hnext hrun
        -- less than the frame misses the boundary, more swallows a packet
        have hle := frame_le_of_boundary hrt hs ht
          (bodyLength_pos hrt buffer _ (env 0).peek) (hnext 0)
        rw [← bodyLength_eq_iff hrt hp.2, ← le_bodyLength_iff hrt, ← frame_length hrt hp.2]
        rcases Nat.eq_or_lt_of_le hle with heq | hlt
        · exact .inl heq.symm
        · refine .inr ⟨eq_nil_of_frame_lt hrt hs ht (fun i => henv (i + 1)) hnext hrun ?_ hlt, hle⟩
          rw [hmsgs, messages_append, messages_turnLines]
          simp only [List.length_append, List.length_map, List.length_cons, List.length_nil]
          omega
      obtain ⟨out₁, hout₁, hframe⟩ := iterate_frame hrt hp.1 hp.2 (henv 0) buffer out hsize
      rw [hframe] at hnext hrun
      refine ⟨hsize, ih _ out₁ _ hps (fun i => henv (i + 1)) hnext ⟨n, buffer', out', hrun, ?_⟩⟩
      rw [hmsgs, hout₁]
      simp

/-- **Stream delivery, exactly**: without failing receives the handler
delivers the frames if and only if every iteration decodes its four header
bytes (those the peek saw over those left by earlier peeks) to the size of
its frame, or for the last frame to more. -/
theorem delivered_iff (hrt : rt.Documented) {sent : List Sent} (hs : Sendable rt sent)
    {env : Nat → Arrival} (henv : ∀ i, (env i).failures = 0) :
    Delivered rt sent env ↔ HeadersRead rt .zero sent env := by
  constructor
  · intro h
    exact headersRead_of_delivers hrt hs sent .zero [] env (List.suffix_refl _) henv
      h.boundary h.prints
  · intro h
    obtain ⟨hboundary, hprints⟩ := delivers_of_headersRead hrt sent .zero [] env hs henv h
    exact ⟨hboundary, hprints⟩

/-- A peek that sees the whole varint of the frame reads its size, whatever
earlier peeks have left. -/
theorem sizeRead_of_seen (hrt : rt.Documented) {p : Sent} (hn : p.1.byteSizeLong rt < 2 ^ 28)
    (ps : List Sent) (buffer : Header) {k : Nat} (hk : (header rt p.1).length ≤ k + 1) :
    sizeRead rt buffer (stream rt (p :: ps)) (.sees k) = UInt32.ofNat (p.1.byteSizeLong rt) := by
  obtain ⟨filler, hpkt, hfour⟩ := pkt_fits hrt p.2 hn
  have hread := readVarint32_pkt hrt p.1 []
  rw [List.append_nil] at hread
  have hfront : stream rt (p :: ps) = header rt p.1
      ++ (p.1.serializeWithCachedSizes rt ++ filler ++ stream rt ps) := by
    rw [stream_cons, hpkt, List.append_assoc]
  have htake : (stream rt (p :: ps)).take (min 4 (k + 1)) = header rt p.1
      ++ (p.1.serializeWithCachedSizes rt ++ filler ++ stream rt ps).take
        (min 4 (k + 1) - (header rt p.1).length) := by
    rw [hfront, List.take_append, List.take_of_length_le (by omega)]
  have hfit : ((stream rt (p :: ps)).take (min 4 (k + 1))).length ≤ buffer.bytes.length := by
    rw [List.length_take, buffer.length_eq]
    omega
  rw [sizeRead, Choice.peeked, Header.fill]
  simp only
  rw [Buffer.overwrite_of_le hfit, htake, List.append_assoc]
  exact readHdr_complete hrt (by omega) hread _

/-- **Whole headers**: where each peek sees the varint of its frame in one piece,
every size is read right. -/
theorem headersRead_of_seen (hrt : rt.Documented) :
    ∀ (sent : List Sent) (buffer : Header) (env : Nat → Arrival), Sendable rt sent →
      (∀ i p, sent[i]? = some p → ∃ k, (env i).peek = .sees k ∧ (header rt p.1).length ≤ k + 1) →
      HeadersRead rt buffer sent env := by
  intro sent
  induction sent with
  | nil => intros; trivial
  | cons p ps ih =>
      intro buffer env hs hseen
      obtain ⟨k, hpeek, hk⟩ := hseen 0 p rfl
      refine ⟨.inl ?_, ih _ _ hs.tail fun i q hq => hseen (i + 1) q hq⟩
      rw [hpeek]
      exact sizeRead_of_seen hrt (hs p (by simp)).2 ps buffer hk

/-- Two packets whose headers the peeks see whole. -/
theorem delivered_two :
    Delivered reference [(⟨[0x68, 0x69], []⟩, fun _ => 7), (⟨[], []⟩, fun _ => 9)]
      (fun _ => ⟨.sees 0, .sees 0, fun _ => 5⟩) := by
  refine (delivered_iff reference_documented ?_ (fun _ => rfl)).mpr ?_
  · intro p hp
    simp only [List.mem_cons, List.not_mem_nil, or_false] at hp
    rcases hp with rfl | rfl
    · exact ⟨⟨by decide, rfl⟩, by decide⟩
    · exact ⟨⟨by decide, rfl⟩, by decide⟩
  · exact ⟨.inl (by decide +kernel), .inl (by decide +kernel), trivial⟩

/-- One packet of 128 bytes, of whose two-byte header the first peek sees
one byte: the size is read as `0` and the handler loses the frame. -/
theorem short_peek_not_delivered :
    ¬ ∀ (sent : List Sent) (env : Nat → Arrival), Sendable reference sent →
      (∀ i, (env i).failures = 0) → Delivered reference sent env := by
  intro h
  have hdelivered := h [(⟨List.replicate 126 0x61, []⟩, fun _ => 0)]
    (fun _ => ⟨.sees 0, .sees 0, fun _ => 0⟩)
    (by
      intro p hp
      rw [List.mem_singleton] at hp
      rw [hp]
      exact ⟨⟨by decide +kernel, rfl⟩, by decide +kernel⟩)
    (fun _ => rfl)
  obtain ⟨tail, htail, hunread⟩ := hdelivered.boundary 1
  have hlen := congrArg List.length hunread
  rcases List.suffix_cons_iff.mp htail with rfl | hnil
  · exact absurd hlen (by decide +kernel)
  · rw [List.suffix_nil.mp hnil] at hlen
    exact absurd hlen (by decide +kernel)

end Session

end Assignment.Socket

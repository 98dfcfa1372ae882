import OctCommu.Lib.Runs
import Mathlib.Data.List.Basic

/-! # The buffers around an `SSL`

What is to be encrypted waits in `_buffer_send` until the handshake is over; `flush` moves
everything through the `SSL` and calls back with what comes out. A callback may call the
box again, and `flush` then returns at once. The `SSL` may answer anything; its two `BIO`s
are memory, which takes all that is written.
-/
namespace OctCommu.Util
open Runs

/-- Where the `flush` that is under way stands; without one `_is_flush` is false. -/
inductive SslPlace (B : Type*) where
  | idle
  /-- about to call `SSL_read`, with what the buffer holds -/
  | flushReadBio (buf : List B)
  | onDec (more : Bool)
  /-- about to call `SSL_write` for the front from the offset on -/
  | sslWrite (offset : ℕ)
  /-- in `_on_enc`, before the end of `flush` or in the loop over `_buffer_send` -/
  | onEnc (more : Bool) (back : Option ℕ)

namespace SslPlace
variable {B : Type*}

/-- How much of the front is written. -/
def offset : SslPlace B → Option ℕ
  | sslWrite offset => some offset
  | onEnc _ back => back
  | _ => none

/-- `SSL_read` will be called before `flush` ends. -/
def reads : SslPlace B → Bool
  | flushReadBio _ => true
  | onDec more => more
  | _ => false

/-- `_buffer_send` will be looked at. -/
def looks : SslPlace B → Bool
  | flushReadBio _ | onDec _ | sslWrite _ => true
  | onEnc _ back => back.isSome
  | idle => false

/-- `flushWriteBio` will be called, or the `SSL` fails. -/
def drains : SslPlace B → Bool
  | flushReadBio _ | onDec _ | sslWrite _ => true
  | onEnc more _ => more
  | idle => false

/-- What is read and not yet handed over. -/
def held : SslPlace B → List B
  | flushReadBio buf => buf
  | _ => []

end SslPlace

structure SSL_Box (B : Type*) where
  _server_mode : Bool
  _send_handshake : Bool
  _buff_size : {n : ℕ // 2 ≤ n}
  _buffer_send : List (List B)
  place : SslPlace B
  /-- whether the loop still refers to a front that was cleared -/
  dangling : Bool
  write_bio : List B
  init_finished : Bool
  /-- whether something was received since `SSL_read` had nothing more to give -/
  unread : Bool
  /-- what was given to `onSend`, without what a `shutdown` has cleared -/
  given : List B
  written : List B
  produced : List B
  encrypted : List B
  decrypted : List B
  delivered : List B

/-- The calls from outside and from callbacks, and what the `SSL` answers to those of the box. -/
inductive SslAct (B : Type*) where
  | onRecv (buffer : List B) (taken done : Bool) (out : List B)
  | onSend (buffer : List B) (finished : Bool) (out : List B)
  | shutdown (done : Bool) (out : List B)
  | flush
  | sslRead (got : List B) (finished : Bool) (out : List B)
  | sslWrite (nwrite : ℕ) (finished : Bool) (out : List B)
  | sslFail (out : List B) (done : Bool) (bye : List B)
  /-- the callback returns -/
  | ret

namespace SSL_Box
variable {B : Type*}

def create (server_mode : Bool) (buff_size : {n : ℕ // 2 ≤ n}) : SSL_Box B :=
  ⟨server_mode,false,buff_size,[],.idle,false,[],false,false,[],[],[],[],[],[]⟩

def buf_size (s : SSL_Box B) : ℕ := s._buff_size - 1

/-- What the `SSL` does in one of its functions. -/
def answer (s : SSL_Box B) (finished : Bool) (out : List B) : SSL_Box B :=
  { s with init_finished := finished, write_bio := s.write_bio ++ out, produced := s.produced ++ out }

/-- The loop over the packets goes on at an offset of the first. -/
def nextWrite : List (List B) → ℕ → List (List B) × SslPlace B
  | [], _ => ([],.idle)
  | front :: rest, offset => if offset < front.length then (front :: rest,.sslWrite offset) else nextWrite rest 0

/-- What follows `flushWriteBio`. -/
def resume (s : SSL_Box B) : Option ℕ → Option (SSL_Box B)
  | none => some { s with place := .idle }
  | some offset =>
    let next := nextWrite s._buffer_send offset
    if s.dangling then none else some { s with _buffer_send := next.1, place := next.2 }

/-- As far as the first call of `_on_enc`. -/
def flushWriteBio (s : SSL_Box B) (back : Option ℕ) : Option (SSL_Box B) :=
  if s.write_bio = [] then s.resume back
  else some { s with
    write_bio := s.write_bio.drop s.buf_size
    encrypted := s.encrypted ++ s.write_bio.take s.buf_size
    place := .onEnc (s.buf_size ≤ s.write_bio.length) back }

/-- What follows `flushReadBio`. -/
def look (s : SSL_Box B) : Option (SSL_Box B) :=
  if ¬s.init_finished ∨ s._buffer_send = [] then s.flushWriteBio none
  else s.resume (some 0)

def flush (s : SSL_Box B) : SSL_Box B :=
  match s.place with
  | .idle => { s with place := .flushReadBio [] }
  | _ => s

/-- `shutdown` as far as `SSL_shutdown`. -/
def cleared (s : SSL_Box B) (out : List B) : SSL_Box B :=
  { s.answer s.init_finished out with
    _buffer_send := [], given := s.written, dangling := s.dangling || s.place.offset.isSome }

def shutdown (s : SSL_Box B) (done : Bool) (out : List B) : SSL_Box B :=
  if done then (s.cleared out).flush else s.cleared out

/-- The box can be called: nothing is under way, or a callback. -/
def callable (s : SSL_Box B) : Bool :=
  match s.place with
  | .idle | .onDec _ | .onEnc _ _ => true
  | _ => false

/-- `SSL_do_handshake` is called for the first packet of a client. -/
def handshake (s : SSL_Box B) (finished : Bool) (out : List B) : SSL_Box B :=
  if !s._server_mode && !s._send_handshake then { s.answer finished out with _send_handshake := true } else s

def step (s : SSL_Box B) : SslAct B → Option (SSL_Box B)
  | .onRecv buffer taken done out =>
    if ¬s.callable then none
    else if buffer = [] then some s
    else if taken then some { s with unread := true }.flush
    else some (s.shutdown done out)
  | .onSend buffer finished out =>
    if ¬s.callable then none
    else if buffer = [] then some s
    else
      let t := s.handshake finished out
      some { t with _buffer_send := t._buffer_send ++ [buffer], given := t.given ++ buffer }.flush
  | .shutdown done out => if ¬s.callable then none else some (s.shutdown done out)
  | .flush => if ¬s.callable then none else some s.flush
  | .sslRead got finished out =>
    match s.place with
    | .flushReadBio buf =>
      let t := { s.answer finished out with decrypted := s.decrypted ++ got }
      if s.buf_size < (buf ++ got).length then none
      else if got ≠ [] ∧ (buf ++ got).length < s.buf_size then some { t with place := .flushReadBio (buf ++ got) }
      else if buf ++ got = [] then { t with unread := false }.look
      else some { t with
        unread := s.unread && got ≠ [], delivered := s.delivered ++ (buf ++ got), place := .onDec (got ≠ []) }
    | _ => none
  | .sslWrite nwrite finished out =>
    match s.place, s._buffer_send with
    | .sslWrite offset, front :: _ =>
      if nwrite = 0 ∨ front.length < offset + nwrite then none
      else { s.answer finished out with
        written := s.written ++ (front.drop offset).take nwrite }.flushWriteBio (some (offset + nwrite))
    | _, _ => none
  | .sslFail out done bye =>
    match s.place with
    | .sslWrite _ =>
      some { (s.answer s.init_finished out).shutdown done bye with place := .idle, dangling := s.dangling }
    | _ => none
  | .ret =>
    match s.place with
    | .onDec more => if more then some { s with place := .flushReadBio [] } else s.look
    | .onEnc more back => if more then s.flushWriteBio back else s.resume back
    | _ => none

/-- The plaintext that is given and not yet written. -/
def pending (s : SSL_Box B) : List B := s._buffer_send.flatten.drop (s.place.offset.getD 0)

structure Sound (s : SSL_Box B) : Prop where
  /-- what is given is written in order, and nothing of it waits that nobody will look at -/
  plain : s.written ++ s.pending = s.given
  sent : s.init_finished → s._buffer_send ≠ [] → s.place.looks
  /-- what the `SSL` produces is handed over in order -/
  cipher : s.encrypted ++ s.write_bio = s.produced
  flushed : s.write_bio ≠ [] → s.place.drains
  /-- and what it decrypts -/
  clear : s.delivered ++ s.place.held = s.decrypted
  heard : s.unread → s.place.reads
  alive : s.dangling = false

/-- A `shutdown` is not called under the loop, and what it leaves is flushed. -/
def Closes (s : SSL_Box B) (done : Bool) (out : List B) : Prop :=
  s.place.offset = none ∧ (s.write_bio ++ out ≠ [] → s.place.drains ∨ s.place = .idle ∧ done)

/-- Nothing comes where `flush` will not look at it again: no packet behind the look at `_buffer_send`, nothing
received behind `SSL_read`, no bytes behind `flushWriteBio`. -/
def InTurn (s : SSL_Box B) : SslAct B → Prop
  | .onRecv buffer taken done out =>
    buffer ≠ [] → if taken then s.place = .idle ∨ s.place.reads else s.Closes done out
  | .onSend buffer finished out =>
    buffer ≠ [] → s.place = .idle ∨
      ((s.handshake finished out).init_finished → s.place.looks) ∧
      ((s.handshake finished out).write_bio ≠ [] → s.place.drains)
  | .shutdown done out => s.Closes done out
  | .sslFail out _ bye => s.write_bio ++ out ++ bye = []
  | _ => True

/-- What `flush` keeps besides. -/
structure Inv (s : SSL_Box B) : Prop extends s.Sound where
  full : ∀ buffer ∈ s._buffer_send, buffer ≠ []
  greeted : s._buffer_send ≠ [] → s._server_mode || s._send_handshake
  front : ∀ offset, s.place.offset = some offset →
    ∃ front rest, s._buffer_send = front :: rest ∧ offset ≤ front.length

/-- What holds where `flushWriteBio` is called, with what follows it. -/
structure Ready (s : SSL_Box B) (back : Option ℕ) : Prop where
  plain : s.written ++ s._buffer_send.flatten.drop (back.getD 0) = s.given
  sent : back = none → s.init_finished → s._buffer_send = []
  cipher : s.encrypted ++ s.write_bio = s.produced
  clear : s.delivered = s.decrypted
  heard : s.unread = false
  alive : s.dangling = false
  full : ∀ buffer ∈ s._buffer_send, buffer ≠ []
  greeted : s._buffer_send ≠ [] → s._server_mode || s._send_handshake
  front : ∀ offset, back = some offset → ∃ front rest, s._buffer_send = front :: rest ∧ offset ≤ front.length

variable {s t : SSL_Box B} {back : Option ℕ}

/-- The next packet is begun, or all are written. -/
theorem nextWrite_cases {queue : List (List B)} (hfull : ∀ buffer ∈ queue, buffer ≠ []) (offset : ℕ)
    (hfront : ∀ front rest, queue = front :: rest → offset ≤ front.length) :
    (∃ front rest o, nextWrite queue offset = (front :: rest,.sslWrite o) ∧ front :: rest <:+ queue ∧
      o < front.length ∧ (front :: rest).flatten.drop o = queue.flatten.drop offset) ∨
    nextWrite queue offset = ([],.idle) ∧ queue.flatten.drop offset = [] := by
  cases queue with
  | nil => exact .inr ⟨rfl,by simp⟩
  | cons front rest =>
    by_cases hlt : offset < front.length
    · exact .inl ⟨front,rest,offset,by rw [nextWrite, if_pos hlt],List.suffix_refl _,hlt,rfl⟩
    · have heq : offset = front.length := Nat.le_antisymm (hfront front rest rfl) (not_lt.mp hlt)
      have hdrop : (front :: rest).flatten.drop offset = rest.flatten := by
        rw [heq, List.flatten_cons, List.drop_left]
      rw [nextWrite, if_neg hlt, hdrop]
      cases rest with
      | nil => exact .inr ⟨rfl,rfl⟩
      | cons front' rest =>
        have hpos : 0 < front'.length := List.length_pos_of_ne_nil (hfull front' (by simp))
        exact .inl ⟨front',rest,0,by rw [nextWrite, if_pos hpos],List.suffix_cons _ _,hpos,rfl⟩

theorem Ready.resume (h : s.Ready back) (hbio : s.write_bio ≠ [] → ∃ offset, back = some offset ∧
    s._buffer_send.flatten.drop offset ≠ []) (ht : s.resume back = some t) : t.Inv := by
  cases back with
  | none =>
    obtain rfl := Option.some.inj ht
    have hempty : s.write_bio = [] := by
      by_contra hne
      obtain ⟨offset,hback,-⟩ := hbio hne
      cases hback
    exact { h with
      plain := h.plain
      sent := fun hfin hne => absurd (h.sent rfl hfin) hne
      flushed := fun hne => absurd hempty hne
      clear := by simpa [SslPlace.held] using h.clear
      heard := fun hun => by simp [h.heard] at hun
      front := by simp [SslPlace.offset] }
  | some offset =>
    rw [SSL_Box.resume, if_neg (by simp [h.alive])] at ht
    obtain rfl := Option.some.inj ht
    obtain ⟨front,rest,hqueue,hlen⟩ := h.front offset rfl
    have hfront : ∀ f r, s._buffer_send = f :: r → offset ≤ f.length := by
      intro f r heq
      obtain ⟨rfl,-⟩ := List.cons.inj (hqueue.symm.trans heq)
      exact hlen
    have hgreeted : s._server_mode || s._send_handshake := h.greeted (by simp [hqueue])
    rcases nextWrite_cases h.full offset hfront with ⟨f,r,o,hnext,hsuffix,ho,hdrop⟩ | ⟨hnext,hdrop⟩
    · simp only [hnext]
      exact { h with
        plain := by
          rw [← h.plain, pending]
          exact congrArg _ hdrop
        sent := fun _ _ => rfl
        flushed := fun _ => rfl
        clear := by simpa [SslPlace.held] using h.clear
        heard := fun hun => by simp [h.heard] at hun
        full := fun b hb => h.full b (hsuffix.subset hb)
        greeted := fun _ => hgreeted
        front := by
          rintro _ ⟨rfl⟩
          exact ⟨f,r,rfl,Nat.le_of_lt ho⟩ }
    · simp only [hnext]
      have hempty : s.write_bio = [] := by
        by_contra hne
        obtain ⟨_,⟨rfl⟩,hrest⟩ := hbio hne
        exact hrest hdrop
      exact { h with
        plain := by
          rw [← h.plain]
          exact congrArg _ hdrop.symm
        sent := fun _ hne => absurd rfl hne
        flushed := fun hne => absurd hempty hne
        clear := by simpa [SslPlace.held] using h.clear
        heard := fun hun => by simp [h.heard] at hun
        full := by simp
        greeted := fun hne => absurd rfl hne
        front := by simp [SslPlace.offset] }

theorem Ready.flushWriteBio (h : s.Ready back) (ht : s.flushWriteBio back = some t) : t.Inv := by
  rw [SSL_Box.flushWriteBio] at ht
  split_ifs at ht with hempty
  · exact h.resume (fun hne => absurd hempty hne) ht
  · obtain rfl := Option.some.inj ht
    exact { h with
      plain := h.plain
      sent := by
        intro hfin hne
        cases back with
        | none => exact absurd (h.sent rfl hfin) hne
        | some offset => rfl
      cipher := by rw [List.append_assoc, List.take_append_drop, h.cipher]
      flushed := by
        intro hne
        have hlt : s.buf_size < s.write_bio.length := by
          by_contra hle
          exact hne (List.drop_eq_nil_of_le (not_lt.mp hle))
        simpa [SslPlace.drains] using Nat.le_of_lt hlt
      clear := by simpa [SslPlace.held] using h.clear
      heard := fun hun => by simp [h.heard] at hun
      front := h.front }

/-- Behind `flushReadBio`, whatever its last `SSL_read` has left to send. -/
theorem Inv.look (h : s.Inv) (hoffset : s.place.offset = none) (hheld : s.place.held = []) (hun : s.unread = false)
    (ht : s.look = some t) : t.Inv := by
  have hready : ∀ back, (back = none → s.init_finished → s._buffer_send = []) →
      (∀ offset, back = some offset → offset = 0 ∧ s._buffer_send ≠ []) → s.Ready back := by
    intro back hnone hsome
    exact { h with
      plain := by
        have hplain := h.plain
        rw [pending, hoffset] at hplain
        cases back with
        | none => exact hplain
        | some offset =>
          obtain ⟨rfl,-⟩ := hsome offset rfl
          exact hplain
      sent := hnone
      clear := by simpa [hheld] using h.clear
      heard := hun
      front := by
        intro offset hback
        obtain ⟨rfl,hne⟩ := hsome offset hback
        obtain ⟨front,rest,hqueue⟩ := List.exists_cons_of_ne_nil hne
        exact ⟨front,rest,hqueue,Nat.zero_le _⟩ }
  rw [SSL_Box.look] at ht
  split_ifs at ht with hlook
  · refine (hready none (fun _ hfin => ?_) (by simp)).flushWriteBio ht
    exact hlook.resolve_left (fun hnot => hnot hfin)
  · obtain ⟨-,hne⟩ := not_or.mp hlook
    refine (hready (some 0) (by simp) ?_).resume ?_ ht
    · rintro _ ⟨rfl⟩
      exact ⟨rfl,hne⟩
    · intro _
      refine ⟨0,rfl,?_⟩
      obtain ⟨front,rest,hqueue⟩ := List.exists_cons_of_ne_nil hne
      have hfront := h.full front (by simp [hqueue])
      simp [hqueue, hfront]

/-- The part that does not depend on what `flush` will still look at. -/
structure Kept (s : SSL_Box B) : Prop where
  plain : s.written ++ s.pending = s.given
  cipher : s.encrypted ++ s.write_bio = s.produced
  clear : s.delivered ++ s.place.held = s.decrypted
  alive : s.dangling = false
  full : ∀ buffer ∈ s._buffer_send, buffer ≠ []
  greeted : s._buffer_send ≠ [] → s._server_mode || s._send_handshake
  front : ∀ offset, s.place.offset = some offset →
    ∃ front rest, s._buffer_send = front :: rest ∧ offset ≤ front.length

theorem Inv.kept (h : s.Inv) : s.Kept := { h with }

theorem flush_of_ne (h : s.place ≠ .idle) : s.flush = s := by
  unfold flush
  split
  · exact absurd ‹_› h
  · rfl

theorem flush_of_idle (h : s.place = .idle) : s.flush = { s with place := .flushReadBio [] } := by
  rw [flush, h]

/-- A `flush` that begins looks at everything. -/
theorem Kept.flush (h : s.Kept) (hturn : s.place ≠ .idle → (s.init_finished → s._buffer_send ≠ [] → s.place.looks) ∧
    (s.write_bio ≠ [] → s.place.drains) ∧ (s.unread → s.place.reads)) : s.flush.Inv := by
  by_cases hplace : s.place = .idle
  · rw [flush_of_idle hplace]
    exact { h with
      plain := by
        rw [← h.plain, pending, pending, hplace]
        rfl
      sent := fun _ _ => rfl
      flushed := fun _ => rfl
      clear := by
        rw [← h.clear, hplace]
        rfl
      heard := fun _ => rfl
      front := by simp [SslPlace.offset] }
  · obtain ⟨hsent,hflushed,hheard⟩ := hturn hplace
    rw [flush_of_ne hplace]
    exact { h with sent := hsent, flushed := hflushed, heard := hheard }

theorem Kept.answer (h : s.Kept) (finished : Bool) (out : List B) : (s.answer finished out).Kept :=
  { h with
    plain := h.plain
    cipher := by
      change s.encrypted ++ (s.write_bio ++ out) = s.produced ++ out
      rw [← List.append_assoc, h.cipher]
    front := h.front }

theorem Kept.handshake (h : s.Kept) (finished : Bool) (out : List B) :
    (s.handshake finished out).Kept ∧
      ((s.handshake finished out)._server_mode || (s.handshake finished out)._send_handshake) ∧
      (s.handshake finished out)._buffer_send = s._buffer_send ∧ (s.handshake finished out).place = s.place ∧
      (s.handshake finished out).unread = s.unread := by
  rw [SSL_Box.handshake]
  split_ifs with hfirst
  · have hanswer := h.answer finished out
    refine ⟨{ hanswer with plain := hanswer.plain, greeted := fun _ => ?_, front := hanswer.front },?_,rfl,rfl,rfl⟩
    · simp
    · simp
  · refine ⟨h,?_,rfl,rfl,rfl⟩
    revert hfirst
    cases s._server_mode <;> cases s._send_handshake <;> simp

/-- A packet goes behind the others. -/
theorem Kept.push (h : s.Kept) {buffer : List B} (hne : buffer ≠ [])
    (hgreeted : s._server_mode || s._send_handshake) :
    { s with _buffer_send := s._buffer_send ++ [buffer], given := s.given ++ buffer }.Kept :=
  { h with
    plain := by
      have hlen : s.place.offset.getD 0 ≤ s._buffer_send.flatten.length := by
        cases hoffset : s.place.offset with
        | none => exact Nat.zero_le _
        | some offset =>
          obtain ⟨front,rest,hqueue,hle⟩ := h.front offset hoffset
          simp only [hqueue, Option.getD_some, List.flatten_cons, List.length_append]
          omega
      rw [← h.plain, pending, pending, List.flatten_append, List.append_assoc]
      simp only [List.flatten_cons, List.flatten_nil, List.append_nil]
      rw [List.drop_append_of_le_length hlen]
    full := by
      intro b hb
      rcases List.mem_append.mp hb with hb | hb
      · exact h.full b hb
      · obtain rfl := List.mem_singleton.mp hb
        exact hne
    greeted := fun _ => hgreeted
    front := by
      intro offset hoffset
      obtain ⟨front,rest,hqueue,hle⟩ := h.front offset hoffset
      exact ⟨front,rest ++ [buffer],by simp [hqueue],hle⟩ }

theorem shutdown_of_ne (h : s.place ≠ .idle) (done : Bool) (out : List B) : s.shutdown done out = s.cleared out := by
  rw [shutdown]
  cases done with
  | false => rfl
  | true => exact flush_of_ne h

theorem Inv.shutdown (h : s.Inv) {done : Bool} {out : List B} (hcloses : s.Closes done out) :
    (s.shutdown done out).Inv := by
  obtain ⟨hoffset,hout⟩ := hcloses
  have hkept := h.kept.answer s.init_finished out
  have hcleared : (s.cleared out).Kept :=
    { hkept with
      plain := by simp [pending, cleared, answer]
      alive := by simp [cleared, hoffset, h.alive]
      full := by simp [cleared]
      greeted := fun hne => absurd rfl hne
      front := by
        intro offset hsome
        exact absurd (hoffset.symm.trans hsome) (by simp) }
  rw [SSL_Box.shutdown]
  cases done with
  | false =>
    rw [if_neg Bool.false_ne_true]
    exact { hcleared with
      sent := fun _ hne => absurd rfl hne
      flushed := fun hne => (hout hne).resolve_right (by simp)
      heard := h.heard }
  | true =>
    rw [if_pos rfl]
    refine hcleared.flush fun hplace => ⟨fun _ hne => absurd rfl hne,fun hne => ?_,h.heard⟩
    exact (hout hne).resolve_right (fun hidle => hplace hidle.1)

theorem Inv.onRecv (h : s.Inv) {buffer : List B} {taken done : Bool} {out : List B}
    (hturn : s.InTurn (.onRecv buffer taken done out)) (ht : s.step (.onRecv buffer taken done out) = some t) :
    t.Inv := by
  rw [step] at ht
  split_ifs at ht with _ hbuffer htaken
  · obtain rfl := Option.some.inj ht
    exact h
  · obtain rfl := Option.some.inj ht
    have hreads := hturn hbuffer
    rw [if_pos htaken] at hreads
    have hkept : { s with unread := true }.Kept := { h.kept with plain := h.plain, front := h.front }
    exact hkept.flush fun hplace => ⟨h.sent,h.flushed,fun _ => hreads.resolve_left hplace⟩
  · obtain rfl := Option.some.inj ht
    have hcloses := hturn hbuffer
    rw [if_neg htaken] at hcloses
    exact h.shutdown hcloses

theorem Inv.onSend (h : s.Inv) {buffer : List B} {finished : Bool} {out : List B}
    (hturn : s.InTurn (.onSend buffer finished out)) (ht : s.step (.onSend buffer finished out) = some t) :
    t.Inv := by
  rw [step] at ht
  split_ifs at ht with _ hbuffer
  · obtain rfl := Option.some.inj ht
    exact h
  · obtain rfl := Option.some.inj ht
    obtain ⟨hkept,hgreeted,-,hplace,hunread⟩ := h.kept.handshake finished out
    refine (hkept.push hbuffer hgreeted).flush fun hbusy => ?_
    simp only [hplace] at hbusy ⊢
    obtain ⟨hsent,hflushed⟩ := (hturn hbuffer).resolve_left hbusy
    refine ⟨fun hfin _ => hsent hfin,hflushed,fun hun => h.heard ?_⟩
    rwa [← hunread]

theorem Inv.sslRead (h : s.Inv) {got : List B} {finished : Bool} {out : List B}
    (ht : s.step (.sslRead got finished out) = some t) : t.Inv := by
  rw [step] at ht
  split at ht
  · rename_i buf hplace
    have hkept := h.kept.answer finished out
    have hclear := h.clear
    have hplain := h.plain
    simp only [pending, hplace, SslPlace.held, SslPlace.offset, Option.getD_none] at hclear hplain
    split_ifs at ht with hfits hmore hnone
    · obtain rfl := Option.some.inj ht
      exact { hkept with
        plain := hplain
        sent := fun _ _ => rfl
        flushed := fun _ => rfl
        clear := by
          change s.delivered ++ (buf ++ got) = s.decrypted ++ got
          rw [← hclear, List.append_assoc]
        heard := fun _ => rfl
        front := by simp [SslPlace.offset] }
    · obtain ⟨rfl,rfl⟩ := List.append_eq_nil_iff.mp hnone
      have hinv : { s.answer finished out with decrypted := s.decrypted ++ [], unread := false }.Inv :=
        { hkept with
          plain := hkept.plain
          sent := fun _ _ => by simp [answer, hplace, SslPlace.looks]
          flushed := fun _ => by simp [answer, hplace, SslPlace.drains]
          clear := by
            rw [List.append_nil]
            exact hkept.clear
          heard := by simp
          front := hkept.front }
      refine hinv.look ?_ ?_ rfl ht
      · simp [answer, hplace, SslPlace.offset]
      · simp [answer, hplace, SslPlace.held]
    · obtain rfl := Option.some.inj ht
      exact { hkept with
        plain := hplain
        sent := fun _ _ => rfl
        flushed := fun _ => rfl
        clear := by
          change s.delivered ++ (buf ++ got) ++ [] = s.decrypted ++ got
          rw [← hclear, List.append_nil, List.append_assoc]
        heard := by
          intro hun
          simp only [Bool.and_eq_true] at hun
          exact hun.2
        front := by simp [SslPlace.offset] }
  · cases ht

theorem Inv.sslWrite (h : s.Inv) {nwrite : ℕ} {finished : Bool} {out : List B}
    (ht : s.step (.sslWrite nwrite finished out) = some t) : t.Inv := by
  rw [step] at ht
  split at ht
  · rename_i offset front rest hplace hqueue
    split_ifs at ht with hfits
    obtain ⟨hpos,hle⟩ := not_or.mp hfits
    have hclear := h.clear
    have hplain := h.plain
    simp only [pending, hplace, hqueue, SslPlace.held, SslPlace.offset, Option.getD_some, List.append_nil,
      List.flatten_cons] at hclear hplain
    have hkept := h.kept.answer finished out
    have hready : { s.answer finished out with
        written := s.written ++ (front.drop offset).take nwrite }.Ready (some (offset + nwrite)) :=
      { hkept with
        plain := by
          change s.written ++ (front.drop offset).take nwrite ++ s._buffer_send.flatten.drop (offset + nwrite) =
            s.given
          have hlen : offset ≤ front.length := by omega
          have hdrop : (front ++ rest.flatten).drop offset = front.drop offset ++ rest.flatten :=
            List.drop_append_of_le_length hlen
          have htake : ((front ++ rest.flatten).drop offset).take nwrite = (front.drop offset).take nwrite := by
            rw [hdrop, List.take_append_of_le_length (by simp only [List.length_drop]; omega)]
          rw [← hplain, hqueue, List.flatten_cons, ← List.drop_drop, ← htake, List.append_assoc,
            List.take_append_drop]
        sent := by simp
        clear := hclear
        heard := by
          have hheard := h.heard
          rw [hplace] at hheard
          exact Bool.eq_false_iff.mpr fun hun => Bool.false_ne_true (hheard hun)
        front := by
          rintro _ ⟨rfl⟩
          exact ⟨front,rest,hqueue,by omega⟩ }
    exact hready.flushWriteBio ht
  · cases ht

theorem Inv.sslFail (h : s.Inv) {out bye : List B} {done : Bool}
    (hturn : s.InTurn (.sslFail out done bye)) (ht : s.step (.sslFail out done bye) = some t) : t.Inv := by
  rw [step] at ht
  split at ht
  · rename_i offset hplace
    have hbusy : s.place ≠ .idle := by simp [hplace]
    have hclear := h.clear
    have hheard := h.heard
    simp only [hplace, SslPlace.held, SslPlace.reads] at hclear hheard
    have hout : s.write_bio ++ out ++ bye = [] := hturn
    have hcipher := ((h.kept.answer s.init_finished out).answer s.init_finished bye).cipher
    rw [shutdown_of_ne (s := s.answer s.init_finished out) hbusy] at ht
    obtain rfl := Option.some.inj ht
    exact {
      plain := by simp [pending, cleared, answer]
      sent := fun _ hne => absurd rfl hne
      cipher := hcipher
      flushed := fun hne => absurd hout hne
      clear := hclear
      heard := hheard
      alive := h.alive
      full := by simp [cleared]
      greeted := fun hne => absurd rfl hne
      front := by simp [SslPlace.offset] }
  · cases ht

theorem Inv.ret (h : s.Inv) (ht : s.step .ret = some t) : t.Inv := by
  rw [step] at ht
  split at ht
  · rename_i more hplace
    have hclear := h.clear
    have hplain := h.plain
    simp only [pending, hplace, SslPlace.held, SslPlace.offset, Option.getD_none] at hclear hplain
    split_ifs at ht with hmore
    · obtain rfl := Option.some.inj ht
      exact { h with
        plain := hplain
        sent := fun _ _ => rfl
        flushed := fun _ => rfl
        clear := hclear
        heard := fun _ => rfl
        front := by simp [SslPlace.offset] }
    · refine h.look (by rw [hplace]; rfl) (by rw [hplace]; rfl) ?_ ht
      have hheard := h.heard
      rw [hplace] at hheard
      exact Bool.eq_false_iff.mpr fun hun => hmore (hheard hun)
  · rename_i more back hplace
    have hready : s.Ready back := by
      have hplain := h.plain
      have hheard := h.heard
      have hsent := h.sent
      have hfront := h.front
      have hclear := h.clear
      simp only [pending, hplace, SslPlace.offset, SslPlace.reads, SslPlace.looks, SslPlace.held] at *
      exact { h with
        plain := hplain
        sent := by
          rintro rfl hfin
          by_contra hne
          exact absurd (hsent hfin hne) (by simp)
        clear := by simpa using hclear
        heard := by simpa using hheard
        front := hfront }
    split_ifs at ht with hmore
    · exact hready.flushWriteBio ht
    · refine hready.resume (fun hne => ?_) ht
      have hdrains := h.flushed hne
      rw [hplace] at hdrains
      exact absurd hdrains hmore
  · cases ht

theorem Inv.step (h : s.Inv) {a : SslAct B} (hturn : s.InTurn a) (ht : s.step a = some t) : t.Inv := by
  cases a with
  | onRecv buffer taken done out => exact h.onRecv hturn ht
  | onSend buffer finished out => exact h.onSend hturn ht
  | shutdown done out =>
    rw [SSL_Box.step] at ht
    split_ifs at ht
    obtain rfl := Option.some.inj ht
    exact h.shutdown hturn
  | flush =>
    rw [SSL_Box.step] at ht
    split_ifs at ht
    obtain rfl := Option.some.inj ht
    exact h.kept.flush fun _ => ⟨h.sent,h.flushed,h.heard⟩
  | sslRead got finished out => exact h.sslRead ht
  | sslWrite nwrite finished out => exact h.sslWrite ht
  | sslFail out done bye => exact h.sslFail hturn ht
  | ret => exact h.ret ht

/-- What a `shutdown` must have been when all is well behind it. -/
theorem Sound.closes {done : Bool} {out : List B} (h : (s.shutdown done out).Sound) : s.Closes done out := by
  by_cases hplace : s.place = .idle
  · refine ⟨by simp [hplace, SslPlace.offset],fun hne => .inr ⟨hplace,?_⟩⟩
    by_contra hdone
    have hflushed := h.flushed
    rw [SSL_Box.shutdown, if_neg hdone] at hflushed
    have hdrains := hflushed hne
    simp [cleared, answer, hplace, SslPlace.drains] at hdrains
  · rw [shutdown_of_ne hplace] at h
    refine ⟨?_,fun hne => .inl (h.flushed hne)⟩
    simpa using (Bool.or_eq_false_iff.mp h.alive).2

theorem Sound.inTurn {a : SslAct B} (ht : s.step a = some t) (hsound : t.Sound) : s.InTurn a := by
  cases a with
  | onRecv buffer taken done out =>
    intro hbuffer
    rw [step, if_neg hbuffer] at ht
    split_ifs at ht with _ htaken
    · obtain rfl := Option.some.inj ht
      rw [if_pos htaken]
      by_cases hplace : s.place = .idle
      · exact .inl hplace
      · have hheard := hsound.heard
        rw [flush_of_ne (s := { s with unread := true }) hplace] at hheard
        exact .inr (hheard rfl)
    · obtain rfl := Option.some.inj ht
      rw [if_neg htaken]
      exact hsound.closes
  | onSend buffer finished out =>
    intro hbuffer
    rw [step, if_neg hbuffer] at ht
    split_ifs at ht
    obtain rfl := Option.some.inj ht
    by_cases hplace : s.place = .idle
    · exact .inl hplace
    · have hsame : (s.handshake finished out).place = s.place := by
        rw [handshake]
        split_ifs <;> rfl
      have hsent := hsound.sent
      have hflushed := hsound.flushed
      rw [flush_of_ne (by rw [← hsame] at hplace; exact hplace)] at hsent hflushed
      simp only [hsame] at hsent hflushed
      exact .inr ⟨fun hfin => hsent hfin (by simp),hflushed⟩
  | shutdown done out =>
    rw [step] at ht
    split_ifs at ht
    obtain rfl := Option.some.inj ht
    exact hsound.closes
  | sslFail out done bye =>
    rw [step] at ht
    split at ht
    · rename_i offset hplace
      have hbusy : s.place ≠ .idle := by simp [hplace]
      rw [shutdown_of_ne (s := s.answer s.init_finished out) hbusy] at ht
      obtain rfl := Option.some.inj ht
      by_contra hne
      have hdrains := hsound.flushed hne
      simp [SslPlace.drains] at hdrains
    · cases ht
  | flush => trivial
  | sslRead got finished out => trivial
  | sslWrite nwrite finished out => trivial
  | ret => trivial

/-- A box that is called only where `flush` still looks, whatever the `SSL` answers: what is given is written in
order and what comes out is handed over in order, and when no `flush` is under way nothing is left, neither
received nor produced nor, after the handshake, given. -/
theorem everyStep_inTurn_iff (server_mode : Bool) (buff_size : {n : ℕ // 2 ≤ n}) (acts : List (SslAct B)) :
    EveryStep step InTurn (create server_mode buff_size) acts ↔
      EveryState step Sound (create server_mode buff_size) acts := by
  have hfresh : (create server_mode buff_size : SSL_Box B).Inv := by
    refine ⟨⟨rfl,?_,rfl,?_,rfl,?_,rfl⟩,?_,?_,?_⟩ <;> simp [create, SslPlace.offset]
  exact everyStep_iff_everyState hfresh (fun _ h => h.toSound) (fun _ _ _ h hturn ht => h.step hturn ht)
    fun _ _ _ _ ht hsound => hsound.inTurn ht

end SSL_Box
end OctCommu.Util

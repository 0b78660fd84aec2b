-- The pipeline loop of `HttpServer::onMessage` (src/http/HttpServer.h) ends. What the
-- parser decides behind a whole header section, it decides for every longer input too,
-- and a complete request takes four bytes or more. So each round that goes on leaves a
-- shorter buffer.
import Mymuduo.HttpServer

open bytes

namespace mymuduo.http_server

open http_core http_request http_response

/-! ## The parser and more input -/

section Parser

variable (decompress : Bytes → Bytes)

theorem parseRequest_error_append {buf : Bytes} (hblank : text "\r\n\r\n" <:+: buf)
    (h : parseRequest decompress buf = .error) (more : Bytes) :
    parseRequest decompress (buf ++ more) = .error := by
  obtain ⟨headerEnd, hfind⟩ := Option.isSome_iff_exists.mp (find_isSome_iff.mpr hblank)
  have hend := find_add_length_le hfind
  rw [parseRequest_error_iff decompress hfind] at h
  rw [parseRequest_error_iff decompress (find_append hfind more),
    List.take_append_of_le_length (by omega)]
  exact h

/-- The bytes that a complete request takes, and what more input changes. -/
theorem parseRequest_consumes {buf rest : Bytes} {request : HttpRequest}
    (h : parseRequest decompress buf = .complete request rest) :
    ∃ n, 4 ≤ n ∧ n ≤ buf.length ∧ rest = buf.drop n ∧
      ∀ more, parseRequest decompress (buf ++ more) = .complete request ((buf ++ more).drop n) := by
  obtain ⟨front, hbuf, hfour, -⟩ := parseRequest_front decompress h
  have hdrop : ∀ more, (buf ++ more).drop front.length = rest ++ more := by
    intro more
    rw [hbuf, List.append_assoc, List.drop_left]
  refine ⟨front.length, hfour, by simp [hbuf], by simp [hbuf], ?_⟩
  intro more
  rw [hdrop, parseRequest_append decompress h]

end Parser

/-! ## The loop -/

section Loop

variable {σ : Type*} (core : Core σ)

/-- The call of `onMessage` on `c` returns, and leaves the second connection. -/
inductive Returns : Conn σ → Conn σ → Prop
  | leave {c : Conn σ} (h : (roundOf core c).2 = false) : Returns c (roundOf core c).1
  | again {c last : Conn σ} (h : (roundOf core c).2 = true)
    (hrest : Returns (roundOf core c).1 last) :
      Returns c last

theorem roundOf_shortens {c : Conn σ} (h : (roundOf core c).2 = true) :
    (roundOf core c).1.buf.length < c.buf.length := by
  unfold roundOf at h ⊢
  split
  case isTrue hbuf => simp [hbuf] at h
  case isFalse hbuf =>
    rw [if_neg hbuf] at h
    cases hparse : parseRequest core.decompress c.buf with
    | incomplete | error => simp [hparse] at h
    | complete request rest =>
      obtain ⟨n, hfour, hle, hrest, -⟩ := parseRequest_consumes core.decompress hparse
      have hshort : rest.length < c.buf.length := by
        rw [hrest, List.length_drop]
        omega
      dsimp only
      split
      · exact hshort
      · split <;> exact hshort

theorem returns_onMessageLoop {fuel : Nat} {c : Conn σ} (h : c.buf.length < fuel) :
    Returns core c (onMessageLoop core fuel c) := by
  induction fuel generalizing c with
  | zero => cases h
  | succ fuel ih =>
    rw [onMessageLoop]
    cases hagain : (roundOf core c).2 with
    | false => exact .leave hagain
    | true =>
      have hshort := roundOf_shortens core hagain
      exact .again hagain (ih (by omega))

end Loop

/-- For every input: a complete request is complete with the same bytes in every longer input,
and has taken at least four of them; an error behind a blank line is an error in every longer
input; and the loop over the requests of a buffer returns. -/
theorem request_parsing_is_stable_and_progresses {σ : Type*} (core : Core σ) :
    (∀ buf request rest, parseRequest core.decompress buf = .complete request rest →
      ∃ n, 4 ≤ n ∧ n ≤ buf.length ∧ rest = buf.drop n ∧
        ∀ more, parseRequest core.decompress (buf ++ more) =
          .complete request ((buf ++ more).drop n)) ∧
    (∀ buf, text "\r\n\r\n" <:+: buf → parseRequest core.decompress buf = .error →
      ∀ more, parseRequest core.decompress (buf ++ more) = .error) ∧
    ∀ c : Conn σ, ∃ last, Returns core c last := by
  refine ⟨?_, ?_, ?_⟩
  · intro buf request rest h
    exact parseRequest_consumes core.decompress h
  · intro buf hblank h more
    exact parseRequest_error_append core.decompress hblank h more
  · intro c
    exact ⟨_, returns_onMessageLoop core (Nat.lt_succ_self _)⟩

end mymuduo.http_server

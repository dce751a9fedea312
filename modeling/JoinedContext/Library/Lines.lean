import Mathlib.Data.List.Basic
import Mathlib.Tactic.Common

/-!
# Lines read from a stream in pieces

A reader takes a stream byte by byte and keeps of a line what fits. However the stream is cut into
pieces, it reads the ended lines of the whole, each as far as it fits (`foldl_feed`).
-/

namespace JoinedContext.Lines

variable {α σ : Type} [DecidableEq α]

/-- The bytes of the line that has not ended, and what the lines before it came to. -/
structure Reader (α σ : Type) where
  line : List α
  seen : σ

variable (newline : α) (cap : ℕ) (read : σ → List α → σ)

def push (reader : Reader α σ) (byte : α) : Reader α σ :=
  if byte = newline then ⟨[], read reader.seen reader.line⟩
  else if reader.line.length < cap then ⟨reader.line ++ [byte], reader.seen⟩
  else reader

def feed (reader : Reader α σ) (chunk : List α) : Reader α σ :=
  chunk.foldl (push newline cap read) reader

/-- The lines of a stream that have ended, each as far as it fits. -/
def ended (stream : List α) : List (List α) :=
  (stream.splitOnP (· = newline)).dropLast.map (List.take cap)

variable {newline cap read}

theorem splitOnP_line {line : List α} (h : newline ∉ line) (rest : List α) :
    (line ++ newline :: rest).splitOnP (· = newline) =
      line :: rest.splitOnP (· = newline) := by
  rw [List.splitOnP_append_cons _ _ (by simp), List.splitOnP_eq_singleton, List.singleton_append]
  intro byte hbyte
  simpa using fun heq : byte = newline => h (heq ▸ hbyte)

/-- A line is kept as far as it fits. -/
theorem push_of_ne {line : List α} {seen : σ} {byte : α} (h : byte ≠ newline) :
    push newline cap read ⟨line.take cap, seen⟩ byte = ⟨(line ++ [byte]).take cap, seen⟩ := by
  rw [push, if_neg h]
  dsimp only
  rw [List.length_take]
  split_ifs with hfits
  · have hline : line.length < cap := by omega
    rw [List.take_of_length_le (Nat.le_of_lt hline),
      List.take_of_length_le (by rw [List.length_append, List.length_singleton]; omega)]
  · rw [List.take_append_of_le_length (by omega)]

/-- From a line that has not ended, the reader reads the ended lines of what is there with it. -/
theorem feed_line (stream : List α) : ∀ {line : List α} {seen : σ}, newline ∉ line →
    (feed newline cap read ⟨line.take cap, seen⟩ stream).seen =
      (ended newline cap (line ++ stream)).foldl read seen := by
  induction stream with
  | nil =>
    intro line seen hline
    have hsingle : (line ++ []).splitOnP (· = newline) = [line] := by
      rw [List.append_nil]
      exact List.splitOnP_eq_singleton fun byte hbyte => by
        simpa using fun heq : byte = newline => hline (heq ▸ hbyte)
    rw [ended, hsingle]
    rfl
  | cons byte rest ih =>
    intro line seen hline
    rw [feed, List.foldl_cons, ← feed]
    by_cases hbyte : byte = newline
    · subst hbyte
      have hfresh := @ih [] (read seen (line.take cap)) List.not_mem_nil
      rw [List.take_nil, List.nil_append] at hfresh
      rw [push, if_pos rfl, hfresh, ended, ended, splitOnP_line hline,
        List.dropLast_cons_of_ne_nil (List.splitOnP_ne_nil _ _), List.map_cons, List.foldl_cons]
    · have hmore : newline ∉ line ++ [byte] := by
        simpa [hline] using fun heq : newline = byte => hbyte heq.symm
      rw [push_of_ne hbyte, ih hmore, List.append_assoc, List.singleton_append]

/-- However a stream is cut, what is read is its ended lines. -/
theorem foldl_feed (chunks : List (List α)) (seen : σ) :
    (chunks.foldl (feed newline cap read) ⟨[], seen⟩).seen =
      (ended newline cap chunks.flatten).foldl read seen := by
  have hflat : ∀ reader : Reader α σ, chunks.foldl (feed newline cap read) reader =
      feed newline cap read reader chunks.flatten := by
    induction chunks with
    | nil => exact fun _ => rfl
    | cons chunk rest ih =>
      intro reader
      rw [List.foldl_cons, ih, List.flatten_cons, feed, feed, feed, List.foldl_append]
  have hline := @feed_line _ _ _ newline cap read chunks.flatten [] seen List.not_mem_nil
  rw [List.take_nil, List.nil_append] at hline
  rw [hflat, hline]

end JoinedContext.Lines

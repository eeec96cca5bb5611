import Mathlib.Data.List.Basic

/-!
# Playlists as text

A playlist in the extended M3U form: a first line, and for each entry a line
with its title behind a comma and a line with its address. A line ends with a
line feed, and a carriage return before it does not belong to it.
-/
namespace M3uText

structure Entry where
  title : List UInt8
  address : List UInt8
  deriving DecidableEq

/-- `#EXTM3U` -/
def mark : List UInt8 := [35, 69, 88, 84, 77, 51, 85]

/-- `#EXTINF:` -/
def infoMark : List UInt8 := [35, 69, 88, 84, 73, 78, 70, 58]

def crlf : List UInt8 := [13, 10]

/-- A line without the carriage return at its end. -/
def stripReturn (line : List UInt8) : List UInt8 :=
  if line.getLast? = some 13 then line.dropLast else line

/-- The lines of a text, where some of the first one has been read. -/
def linesFrom (started : List UInt8) : List UInt8 → List (List UInt8)
  | [] => if started = [] then [] else [started]
  | c :: text => if c = 10 then stripReturn started :: linesFrom [] text
    else linesFrom (started ++ [c]) text

/-- The entries, each of two lines. -/
def entriesOf : List (List UInt8) → Option (List Entry)
  | [] => some []
  | info :: address :: lines =>
    if infoMark <+: info ∧ 44 ∈ info then
      (entriesOf lines).map fun entries =>
        ⟨(info.dropWhile (· != 44)).drop 1, address⟩ :: entries
    else none
  | _ => none

def read (text : List UInt8) : Option (List Entry) :=
  match linesFrom [] text with
  | first :: lines => if first = mark then entriesOf lines else none
  | [] => none

/-- The text of an entry, with its duration. -/
def entryText (duration : List UInt8) (e : Entry) : List UInt8 :=
  infoMark ++ duration ++ [44] ++ e.title ++ crlf ++ (e.address ++ crlf)

/-- The path of an address: what stands behind the scheme and the authority. -/
def pathOf (address : List UInt8) : List UInt8 :=
  ((address.dropWhile (· != 58)).drop 3).dropWhile (· != 47)

variable {line rest duration : List UInt8} {e : Entry} {entries : List Entry}

theorem linesFrom_append {started : List UInt8} (h : 10 ∉ line) :
    linesFrom started (line ++ rest) = linesFrom (started ++ line) rest := by
  induction line generalizing started with
  | nil => rw [List.nil_append, List.append_nil]
  | cons c line ih =>
    obtain ⟨hc, hline⟩ := not_or.mp (mt List.mem_cons.mpr h)
    rw [List.cons_append, linesFrom, if_neg (Ne.symm hc), ih hline, List.append_assoc]
    rfl

/-- A line that ends with both. -/
theorem linesFrom_line (h : 10 ∉ line) :
    linesFrom [] (line ++ crlf ++ rest) = line :: linesFrom [] rest := by
  have hreturn : 10 ∉ line ++ [13] := by simp [h]
  have hsplit : line ++ crlf ++ rest = (line ++ [13]) ++ 10 :: rest := by simp [crlf]
  rw [hsplit, linesFrom_append hreturn, linesFrom, if_pos rfl, List.nil_append, stripReturn,
    List.getLast?_append, List.dropLast_concat]
  rfl

theorem entriesOf_entry (hduration : 44 ∉ duration) {lines : List (List UInt8)} :
    entriesOf ((infoMark ++ duration ++ [44] ++ e.title) :: e.address :: lines) =
      (entriesOf lines).map (e :: ·) := by
  have hbefore : ∀ c ∈ infoMark ++ duration, (c != 44) = true := by
    intro c hc
    rw [bne_iff_ne]
    rintro rfl
    rcases List.mem_append.mp hc with hmark | hin
    · exact absurd hmark (by decide)
    · exact hduration hin
  have hdrop : (infoMark ++ duration ++ [44] ++ e.title).dropWhile (· != 44) =
      44 :: e.title := by
    rw [List.append_assoc, List.dropWhile_append_of_pos hbefore]
    rfl
  rw [entriesOf, if_pos ⟨⟨duration ++ [44] ++ e.title, by simp⟩, by simp⟩, hdrop]
  rfl

/-- What is written is read back, where no line is broken. -/
theorem read_entries (hduration : 44 ∉ duration) (hunbroken : 10 ∉ duration)
    (h : ∀ e ∈ entries, 10 ∉ e.title ∧ 10 ∉ e.address) :
    read (mark ++ crlf ++ (entries.map (entryText duration)).flatten) = some entries := by
  have hentries : entriesOf (linesFrom [] (entries.map (entryText duration)).flatten) =
      some entries := by
    induction entries with
    | nil => rfl
    | cons e entries ih =>
      obtain ⟨htitle, haddress⟩ := h e List.mem_cons_self
      have hinfo : 10 ∉ infoMark ++ duration ++ [44] ++ e.title := by
        have hmark : (10 : UInt8) ∉ infoMark := by decide
        simp [hmark, hunbroken, htitle]
      rw [List.map_cons, List.flatten_cons, entryText, List.append_assoc, linesFrom_line hinfo,
        linesFrom_line haddress, entriesOf_entry hduration,
        ih fun e he => h e (List.mem_cons_of_mem _ he)]
      rfl
  rw [read, linesFrom_line (by decide)]
  dsimp only
  rw [if_pos rfl, hentries]

theorem pathOf_address {scheme authority path : List UInt8} (hscheme : 58 ∉ scheme)
    (hauthority : 47 ∉ authority) :
    pathOf (scheme ++ [58, 47, 47] ++ (authority ++ 47 :: path)) = 47 :: path := by
  have hfirst : ∀ c ∈ scheme, (c != 58) = true := fun c hc => by
    rw [bne_iff_ne]
    rintro rfl
    exact hscheme hc
  have hsecond : ∀ c ∈ authority, (c != 47) = true := fun c hc => by
    rw [bne_iff_ne]
    rintro rfl
    exact hauthority hc
  rw [pathOf, List.append_assoc, List.dropWhile_append_of_pos hfirst]
  have hslashes : (([58, 47, 47] ++ (authority ++ 47 :: path)).dropWhile (· != 58)).drop 3 =
      authority ++ 47 :: path := rfl
  rw [hslashes, List.dropWhile_append_of_pos hsecond]
  rfl

end M3uText

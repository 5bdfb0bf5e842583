import Lrndis.App.Site
import Lrndis.Http.Answers
import Lrndis.Http.Documents
import Lrndis.Http.Find

/-!
# What the device answers

The handlers keep to what the server relies on, and a request for `/ctl.cgi` sets the LEDs
and is answered with a page that shows them.
-/

namespace Lrndis.Site

open Mem Template Http

variable {T : Type} {board : Board T} {files : Files}

/-! ## The handlers and the server -/

section Handlers

theorem length_unsignedText {n : Nat} (h : n < 10000000000) : (unsignedText n).length ≤ 10 := by
  rw [unsignedText, List.length_map]
  exact (Nat.length_toDigits_le_iff (by decide) (by decide)).mpr (Nat.lt_of_lt_of_le h (by decide))

theorem length_intText {i : Int} (h : i.natAbs < 10000000000) : (intText i).length ≤ 11 := by
  have hlen := length_unsignedText h
  unfold intText
  split
  · rw [List.length_cons]
    omega
  · omega

theorem length_accText (acc : Int32 × Int32 × Int32) : (accText acc).length ≤ 37 := by
  have hint : ∀ i : Int32, (intText i.toInt).length ≤ 11 := by
    intro i
    have hle := i.le_toInt
    have hlt := i.toInt_lt
    exact length_intText (by omega)
  have h1 := hint acc.1
  have h2 := hint acc.2.1
  have h3 := hint acc.2.2
  have hsep : (text ", ").length = 2 := by decide
  simp only [accText, List.length_append, hsep]
  omega

def printed (board : Board T) (w : World T) : Nat → List UInt8
  | 0 => unsignedText (u32 (board.mtime w.rest))
  | 1 => intText (board.button w.rest &&& 1).toNat
  | 2 => accText (board.readAcc w.rest).1
  | 3 => [ledByte w.led.g]
  | 4 => [ledByte w.led.o]
  | _ => [ledByte w.led.r]

theorem length_printed (board : Board T) (w : World T) (i : Nat) :
    (printed board w i).length ≤ 37 := by
  have hu32 : u32 (board.mtime w.rest) < 10000000000 := by
    unfold u32
    omega
  have hbit : (board.button w.rest &&& 1).toNat ≤ 1 := by
    rw [UInt32.toNat_and]
    exact Nat.and_le_right
  unfold printed
  split
  · exact Nat.le_trans (length_unsignedText hu32) (by decide)
  · exact Nat.le_trans (length_intText (by omega)) (by decide)
  · exact length_accText _
  all_goals exact (by decide : 1 ≤ 37)

theorem snprintf_spec {n size : Nat} (m : Buffer n) {s : List UInt8} (hs : s.length < size)
    (hsize : size ≤ n) (hlen : s.length < 65536) :
    (UInt16.ofNat (snprintf m size s).1).toNat = s.length ∧
      (snprintf m size s).2.bytes.take s.length = s := by
  have hall : s.take (size - 1) = s := List.take_of_length_le (by omega)
  simp only [snprintf, hall]
  refine ⟨by rw [UInt16.toNat_ofNat']; omega, ?_⟩
  have htake := m.take_write 0 (s ++ [0]) (by simp; omega)
  have hshort := congrArg (List.take s.length) htake
  rw [List.take_take, List.length_append, List.length_singleton, Nat.zero_add,
    Nat.min_eq_left (Nat.le_succ _), List.take_zero, List.nil_append, List.take_left] at hshort
  exact hshort

theorem ssiHandler_spec (board : Board T) (w : World T) {i : Nat} (hi : i < 6)
    (insert : Buffer (lwipHttpdMaxTagInsertLen + 1)) :
    (ssiHandler board w i insert lwipHttpdMaxTagInsertLen).1.toNat = (printed board w i).length ∧
      (ssiHandler board w i insert lwipHttpdMaxTagInsertLen).2.1.bytes.take
        (printed board w i).length = printed board w i := by
  have hroom : ¬lwipHttpdMaxTagInsertLen < 32 := by decide
  have hmax : lwipHttpdMaxTagInsertLen = 192 := rfl
  have hlen := length_printed board w i
  have hprinted : ∀ s : List UInt8, s.length ≤ 37 →
      (UInt16.ofNat (snprintf insert lwipHttpdMaxTagInsertLen s).1).toNat = s.length ∧
        (snprintf insert lwipHttpdMaxTagInsertLen s).2.bytes.take s.length = s :=
    fun s hs => snprintf_spec insert (by omega) (by omega) (by omega)
  have hdigit : ∀ led, (1 : UInt16).toNat = [ledByte led].length ∧
      (insert.setByte 0 (ledByte led)).bytes.take 1 = [ledByte led] :=
    fun led => ⟨rfl, insert.take_setByte 0 _ (by decide)⟩
  unfold ssiHandler
  rw [if_neg hroom]
  obtain rfl | rfl | rfl | rfl | rfl | rfl : i = 0 ∨ i = 1 ∨ i = 2 ∨ i = 3 ∨ i = 4 ∨ i = 5 := by
    omega
  · exact hprinted _ hlen
  · exact hprinted _ hlen
  · exact hprinted _ hlen
  · exact hdigit w.led.g
  · exact hdigit w.led.o
  · exact hdigit w.led.r

theorem env_fits : (env board files).Fits := by
  intro w i insert hi
  have hlen := length_printed board w i
  have hmax : lwipHttpdMaxTagInsertLen = 192 := rfl
  have hspec : (ssiHandler board w i insert lwipHttpdMaxTagInsertLen).1.toNat =
      (printed board w i).length := (ssiHandler_spec board w hi insert).1
  simp only [env]
  omega

/-! ### Files -/

theorem wellFormed_tag {name : List UInt8} (h : TagName name) : WellFormed (tag name) :=
  ⟨h, [], [], by simp, by simp, rfl⟩

theorem wellFormed_stateShtml : ∀ p ∈ stateShtml, WellFormed p := by
  have htext : ∀ l : List UInt8, 0x3C ∉ l → WellFormed (.text l) := fun l h => noLeadIn_of_not_mem h
  have hname : ∀ name ∈ ssiTagsTable, WellFormed (tag name) := by
    intro name hmem
    have hall : ∀ name ∈ ssiTagsTable, name ≠ [] ∧ name.length ≤ lwipHttpdMaxTagNameLen ∧
        ∀ c ∈ name, c ≠ byteAt gPcTagLeadOut 0 ∧ ¬isSpace c := by decide +kernel
    obtain ⟨hne, hlen, hplain⟩ := hall name hmem
    exact wellFormed_tag ⟨hne, hlen, hplain⟩
  rw [stateShtml]
  refine List.forall_mem_cons.mpr ⟨htext _ (by decide +kernel), ?_⟩
  iterate 6
    refine List.forall_mem_cons.mpr ⟨htext _ (by decide +kernel), ?_⟩
    refine List.forall_mem_cons.mpr ⟨hname _ (by decide +kernel), ?_⟩
  refine List.forall_mem_cons.mpr ⟨htext _ (by decide +kernel), ?_⟩
  exact fun _ hmem => absurd hmem List.not_mem_nil

/-- The server works with the files and the handlers of the device. -/
theorem env_serves : (env board files).Serves where
  fits := env_fits
  short := by
    intro name f hmem is09
    apply short_of_length
    simp only [env, fsRoot, List.mem_cons, Prod.mk.injEq, List.not_mem_nil, or_false] at hmem
    rcases hmem with ⟨-, rfl⟩ | ⟨-, rfl⟩ | ⟨-, rfl⟩ | ⟨-, rfl⟩ | ⟨-, rfl⟩
    · exact files.zeptoMinJs.small
    · decide +kernel
    · exact files.indexHtml.small
    · exact files.notFoundHtml.small
    · exact files.imgDiscoverySvg.small
  header := by
    intro name f hmem
    simp only [env, fsRoot, List.mem_cons, Prod.mk.injEq, List.not_mem_nil, or_false] at hmem
    rcases hmem with ⟨-, rfl⟩ | ⟨-, rfl⟩ | ⟨-, rfl⟩ | ⟨-, rfl⟩ | ⟨-, rfl⟩
    · exact quiet_of_noLeadIn files.zeptoMinJs.header
    · exact quiet_of_noLeadIn (noLeadIn_of_not_mem (by decide +kernel))
    · exact quiet_of_noLeadIn files.indexHtml.header
    · exact quiet_of_noLeadIn files.notFoundHtml.header
    · exact quiet_of_noLeadIn files.imgDiscoverySvg.header

end Handlers

/-! ## The control of the LEDs -/

section Control

open Cgi (Parameter Valued parameters lwipHttpdMaxCgiParameters ledAfter lastValue)

variable {w : World T} {led : Cgi.Leds}

theorem assign_after (q : Parameter) (name : UInt8) (led : Bool)
    (hvalue : q.name = [name] → q.value ≠ none) :
    assign board name (q.name, q.value) led = ledAfter name led [q] := by
  unfold assign ledAfter lastValue
  by_cases hname : q.name = [name]
  · cases hq : q.value with
    | none => exact absurd hq (hvalue hname)
    | some v => cases v <;> simp [hname, hq, firstByte]
  · simp [hname]

theorem ctlLoop_after {ps : List Parameter} (h : Valued ps) (led : Cgi.Leds) :
    ctlLoop board led (ps.map fun q => (q.name, q.value)) = led.after ps := by
  induction ps generalizing led with
  | nil => rfl
  | cons q ps ih =>
    obtain ⟨⟨hg, ho, hr⟩, hps⟩ := (Cgi.valued_cons q ps).mp h
    rw [Cgi.after_cons, ← ih hps, List.map_cons, ctlLoop, assign_after q _ _ hg, assign_after q _ _ ho,
      assign_after q _ _ hr]
    rfl

def Shows (led : Cgi.Leds) (w : World T) : Prop := w.led = led ∧ w.lamp = led

theorem env_keeps (led : Cgi.Leds) : (env board files).Keeps (Shows led) where
  tcpWrite _ _ h := h
  tcpClose _ h := h
  memMalloc _ h := h
  ssiHandler := by
    intro w i insert n h
    simp only [env, ssiHandler]
    split
    · exact h
    · split <;> exact h

theorem inserts_printed {w : World T} {i : Nat} (hi : i < 6) {a : List UInt8}
    (h : (env board files).Inserts w (ssiTagsTable.getD i []) a) : a = printed board w i := by
  have hfind : ∀ i < 6, ssiTagsTable.findIdx? (· = cName (ssiTagsTable.getD i [])) = some i := by
    decide +kernel
  have htags : (env board files).ppcTags = ssiTagsTable := rfl
  rw [Env.Inserts, htags, hfind i hi] at h
  obtain ⟨insert, rfl⟩ := h
  obtain ⟨hlen, htake⟩ := ssiHandler_spec board w hi insert
  have hsame := congrArg (fun n => (ssiHandler board w i insert
    lwipHttpdMaxTagInsertLen).2.1.bytes.take n) hlen
  exact hsame.trans htake

theorem find_ctl (board : Board T) (files : Files) {query : List UInt8}
    (hzero : 0 ∉ text "/ctl.cgi" ++ 0x3F :: query)
    (hvalued : Valued (parameters lwipHttpdMaxCgiParameters query)) (w : World T) :
    let led := w.led.after (parameters lwipHttpdMaxCgiParameters query)
    ∃ f, f.data = source stateShtml ∧
      httpFindFile (env board files) w (text "/ctl.cgi" ++ 0x3F :: query) =
        (some f, true, { w with led := led, lamp := led }) := by
  have hroot : text "/ctl.cgi" ++ 0x3F :: query ≠ text "/" := by
    intro heq
    have hlen := congrArg List.length heq
    have hctl : (text "/ctl.cgi").length = 8 := by decide
    have hone : (text "/").length = 1 := by decide
    rw [List.length_append, hctl, hone] at hlen
    omega
  have hindex : cgiUriTable.findIdx? (· = text "/ctl.cgi") = some 1 := by decide +kernel
  have hnames : (env board files).cgiNames = cgiUriTable := rfl
  have hplain : 0x3F ∉ text "/ctl.cgi" := by decide
  have hcall := dispatchCgi_query (env board files) w hplain hzero
  rw [hnames, hindex] at hcall
  have hhandler : ∀ ps : List Parameter, Valued ps →
      (env board files).cgiHandler w 1 (ps.map fun q => (q.name, q.value)) =
        (text "/state.shtml", { w with led := w.led.after ps, lamp := w.led.after ps }) := by
    intro ps hps
    simp only [env, cgiHandler, if_neg Nat.one_ne_zero, ctlCgiHandler, ctlLoop_after hps]
  have hopen : fsOpen (env board files).fsRoot (text "/state.shtml") =
      some { fileStateShtml with index := fileStateShtml.data.length } := by
    have hfirst : text "/zepto.min.js" ≠ text "/state.shtml" := by decide
    simp [fsOpen, env, fsRoot, hfirst]
  have htags : gPcSSIExtensions.any (strstr (text "/state.shtml")) = true := by decide +kernel
  refine ⟨{ fileStateShtml with index := fileStateShtml.data.length }, rfl, ?_⟩
  simp only [httpFindFile, if_neg hroot, hcall, hhandler _ hvalued, hopen, htags]

theorem tags_stateShtml : tags stateShtml = ssiTagsTable := by decide +kernel

/-- What a page shows if all that is filled in comes from worlds with the LEDs in this state. -/
theorem fill_shows {led : Cgi.Leds} {P : World T → Prop} {as : List (List UInt8)}
    (h : List.Forall₂ (fun name a => ∃ w, (Shows led w ∧ P w) ∧ (env board files).Inserts w name a)
      ssiTagsTable as) :
    ∃ now pressed moved, P now ∧ P pressed ∧ P moved ∧
      as = [unsignedText (u32 (board.mtime now.rest)),
        intText (board.button pressed.rest &&& 1).toNat, accText (board.readAcc moved.rest).1,
        [ledByte led.g], [ledByte led.o], [ledByte led.r]] := by
  have hprinted : ∀ i < 6, ∀ a,
      (∃ w, (Shows led w ∧ P w) ∧ (env board files).Inserts w (ssiTagsTable.getD i []) a) →
      ∃ w, (Shows led w ∧ P w) ∧ a = printed board w i := by
    rintro i hi a ⟨w, hw, hinserts⟩
    exact ⟨w, hw, inserts_printed hi hinserts⟩
  unfold ssiTagsTable at h
  rcases h with _ | ⟨h0, _ | ⟨h1, _ | ⟨h2, _ | ⟨h3, _ | ⟨h4, _ | ⟨h5, _ | _⟩⟩⟩⟩⟩⟩
  obtain ⟨now, ⟨-, hnow⟩, rfl⟩ := hprinted 0 (by decide) _ h0
  obtain ⟨pressed, ⟨-, hpressed⟩, rfl⟩ := hprinted 1 (by decide) _ h1
  obtain ⟨moved, ⟨-, hmoved⟩, rfl⟩ := hprinted 2 (by decide) _ h2
  obtain ⟨w3, ⟨⟨rfl, -⟩, -⟩, rfl⟩ := hprinted 3 (by decide) _ h3
  obtain ⟨w4, ⟨⟨hled4, -⟩, -⟩, rfl⟩ := hprinted 4 (by decide) _ h4
  obtain ⟨w5, ⟨⟨hled5, -⟩, -⟩, rfl⟩ := hprinted 5 (by decide) _ h5
  exact ⟨now, pressed, moved, hnow, hpressed, hmoved, by simp only [printed, hled4, hled5]⟩

def smallBoard : Board Unit where
  mtime _ := 0
  button _ := 0
  readAcc _ := ((0, 0, 0), ())
  nullByte := 0
  tcpWrite _ _ := (.ok, ())
  tcpSndbuf _ := 4
  tcpSndqueuelen _ := 0
  tcpMss _ := 536
  tcpClose _ := (.ok, ())
  memMalloc _ := (true, ())

def emptyFile : SmallFile where
  file := { data := [], length_lt := by decide, index := 0, httpHeaderIncluded := false }
  small := by decide
  header := noLeadIn_of_not_mem (by decide)

def smallFiles : Files where
  zeptoMinJs := emptyFile
  indexHtml := emptyFile
  notFoundHtml := emptyFile
  imgDiscoverySvg := emptyFile

theorem arrives_ctl :
    Arrives (text "/ctl.cgi" ++ 0x3F :: text "g=1") [] [⟨0, text "GET /ctl.cgi?g=1 HTTP/1.0\r\n\r\n"⟩] where
  request :=
    { line := ⟨text "HTTP/1.0", by decide +kernel⟩, plain := by decide +kernel, blank := by decide +kernel }
  segs_ne := by simp
  last_ne := by decide +kernel
  length_le := by decide +kernel
  clen_le := by decide +kernel

theorem smallBoard_room (w : World Unit) : (env smallBoard smallFiles).Room w :=
  ⟨(by decide +kernel : (4 : UInt16) ≠ 0), (by decide +kernel : (536 : UInt16) ≠ 0), fun _ _ => rfl⟩

end Control

end Lrndis.Site

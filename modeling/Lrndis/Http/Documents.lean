import Lrndis.Http.Progress
import Lrndis.Http.Segments

/-!
# Documents with tags

A file that is a well-formed document is served as the document, with the tags replaced and
all else as it is.
-/

namespace Lrndis.Http

open Mem Template

variable {W : Type} {env : Env W}

section Served

variable {w w' : W} {uri : List UInt8} {segs : List (List ReqPbuf)} {last : List ReqPbuf} {f : FsFile}
  {doc : List (Piece UInt8 (List UInt8))} {l : List UInt8}

theorem headerLength_false (f : FsFile) : headerLength f false = 0 := by
  simp [headerLength]

theorem init_tags (hserves : env.Serves) (hopen : Opened env f)
    (hmem : (env.memMalloc w').1 = true) :
    ∃ hs, (httpInitFile env w' httpStateInit (some f) false true).1 = hs ∧ hs.handle = some f ∧
      hs.file = 0 ∧ hs.ssi.isSome = true ∧ Held f 0 true hs := by
  obtain ⟨hs, hinit, -, -, hfile, hheld, -⟩ := httpInitFile_spec hserves hopen w'
    (rfl : httpStateInit.ssi = none) false true
  have hssi : hs.ssi.isSome = true := by
    rw [← hinit]
    simp [httpInitFile, hmem]
  rw [hssi, headerLength_false] at hheld
  exact ⟨hs, hinit, hheld.handle, hfile.trans (headerLength_false f), hssi, hheld⟩

/-- All of the page is sent from a request on, if TCP acknowledges often enough. -/
theorem page_finally (hserves : env.Serves) (h : Arrives uri segs last)
    (hfind : httpFindFile env w uri = (some f, true, w')) (hmem : (env.memMalloc w').1 = true)
    (hend : ¬EndsInTag (page f 0 true)) :
    ∃ n, ∀ more, Run.Along (step env) (Acked env)
        (Run.run (step env) (httpAccept w) (arrival segs last)).1 more →
      n ≤ more.countP Call.acks →
      Fills (page f 0 true) (acts (history env w (arrival segs last ++ more))) [] := by
  have hrun := run_arrival env w h
  have hopen : Opened env f := opened_findFile (congrArg Prod.fst hfind)
  obtain ⟨hs, hinit, hhandle, hfile, hssi, hheld⟩ := init_tags hserves hopen hmem
  have hanswer : answer env w uri =
      ((httpSend env (httpInitFile env w' httpStateInit (some f) false true).2 hs).1,
        .opened (some f) 0 true ::
          (httpSend env (httpInitFile env w' httpStateInit (some f) false true).2 hs).2.1) := by
    simp only [answer, hfind, hinit, hhandle, hfile, hssi]
  generalize (httpInitFile env w' httpStateInit (some f) false true).2 = w'' at hanswer
  have hshort : Short (page f 0 true) := by
    have hshort := short_page hserves hopen false true
    rwa [headerLength_false] at hshort
  rw [hanswer] at hrun
  have hfirst : openings (httpSend env w'' hs).2.1 = [] →
      openings (history env w (arrival segs last)) = [(some f, 0, true)] := by
    intro hsent
    rw [history, hrun, openings_append, (silent_arrival segs last).openings_eq]
    exact congrArg (_ :: ·) hsent
  -- A short page may be sent as a whole while the request is answered.
  cases httpSend_spec hserves.fits hshort hheld w'' with
  | goes d hconn hout _ hsent =>
    have hopened := hfirst (by rw [hout]; exact openings_map d.acts)
    have hactive : (Run.run (step env) (httpAccept w) (arrival segs last)).1.conn = .active d.hs := by
      rw [hrun]
      exact hconn
    exact ⟨effort f d.hs + 1, fun more hacked hacks =>
      fills_of_eof hserves (openings_once hserves hopened more)
        (eof_finally hserves hopened hactive hend hacked hacks) hend⟩
  | ends sent rest e hconn hout _ _ =>
    have hopened := hfirst (by rw [hout, openings_append, openings_map]; rfl)
    refine ⟨0, fun more _ _ => fills_of_eof hserves (openings_once hserves hopened more) ?_ hend⟩
    rw [history, Run.run_append, hrun, hout]
    simp

/-- A document is sent with its tags replaced and all else as it is, from the request on, if
TCP acknowledges often enough. -/
theorem document_served (hserves : env.Serves) (h : Arrives uri segs last)
    (hfind : httpFindFile env w uri = (some f, true, w')) (hmem : (env.memMalloc w').1 = true)
    (hdoc : ∀ p ∈ doc ++ [.text l], WellFormed p) (hl : l ≠ [])
    (hdata : f.data = source (doc ++ [.text l])) :
    ∃ n, ∀ more, Run.Along (step env) (Acked env)
        (Run.run (step env) (httpAccept w) (arrival segs last)).1 more →
      n ≤ more.countP Call.acks →
      output (acts (history env w (arrival segs last ++ more))) =
          fill (doc ++ [.text l]) (answers (acts (history env w (arrival segs last ++ more)))) ∧
        asked (acts (history env w (arrival segs last ++ more))) = tags (doc ++ [.text l]) := by
  have hstart : f.data.drop 0 = source (doc ++ [.text l]) := hdata
  obtain ⟨hfill, htags⟩ := page_document hdoc hstart
  obtain ⟨n, hfinally⟩ := page_finally hserves h hfind hmem (page_not_endsInTag hdoc hl hstart)
  refine ⟨n, fun more hacked hacks => ?_⟩
  obtain ⟨hout, hasked⟩ := (hfinally more hacked hacks).output_eq
  exact ⟨hout.trans (hfill _), hasked.trans htags⟩

theorem document_served_small :
    ∃ n, let calls := arrival [] [⟨0, text "GET /a.shtml HTTP/1.0\r\n\r\n"⟩] ++
        List.replicate n (.sent : Call Unit)
      output (acts (history smallEnv () calls)) =
          fill smallDoc (answers (acts (history smallEnv () calls))) ∧
        asked (acts (history smallEnv () calls)) = [text "btn"] := by
  have hfind : httpFindFile smallEnv () (text "/a.shtml") = (some smallFile, true, ()) := by
    decide +kernel
  have hwell : ∀ p ∈ smallDoc.dropLast ++ [.text (text " of the board")], WellFormed p :=
    wellFormed_smallDoc
  obtain ⟨n, hserved⟩ := document_served smallEnv_serves arrives_small hfind rfl hwell (by decide +kernel)
    (by decide +kernel)
  exact ⟨n, hserved _ (acked_replicate smallEnv_room _ n) (Nat.le_of_eq (countP_acks n).symm)⟩

end Served

end Lrndis.Http

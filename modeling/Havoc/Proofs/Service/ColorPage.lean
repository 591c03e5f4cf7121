import Havoc.Proofs.Http.Page
import Havoc.Proofs.Service.FaultLayer

/-! # The page in a colour

    The page in a colour shows what is known about a request, and the colour may be one that the
    request asks for.  Still no request changes the markup of the page: all that it brings is
    escaped.

    The route: the page is woven of thirteen fixed pieces and twelve escaped texts
    (`colorPage_eq`), and the pieces leave room for texts, so that `markup_weave` applies.  The
    main theorem is `color_pages_share_markup`. -/

namespace Havoc.Service

open Havoc.Json Havoc.Http Havoc.Text

/-- The pieces of the page that are the same for every request. -/
def colorFrame : List String :=
  ["<html>\n<head><title>Random Color API</title></head>\n<body style=\"background-color:",
    ";\">\n<h1>Color API</h1>\n<p>", ": ", "</p><p>", ": ", "</p><p>", ": ", "</p><p>", ": ",
    "</p><p>", ": ", "</p>\n<p>requested_at: ", "</p>\n</body>\n</html>\n"]

/-- What is known about a request, in the order of the keys. -/
def detailMembers (i : Info) : List (String × Value) :=
  [("body", Value.ofMembers
      [("length", .nat i.body.length), ("payload", .text (lossy i.body))]),
    ("cookies", Info.textsValue i.cookies), ("ip", .text i.clientIp), ("method", .text i.method),
    ("query", .object (i.queryParams.map fun (k, xs) => (k, .array (xs.map .text))))]

/-- The texts that stand between the pieces. -/
def colorTexts (color : String) (i : Info) (now : Moment) : List String :=
  color :: (detailMembers i).flatMap (fun (key, x) => [key, x.render]) ++ [now.precise]

/-- A request is answered with a page. -/
def State.Presents (s : State) (now : Instant) (c : Call) (html : String) : Prop :=
  (s.direct now c).1.answered =
    ⟨c.number, .ok (.page html), ⟨200, "text/html; charset=utf-8", html⟩⟩ :: s.answered

variable {s s' : State} {now now' : Instant} {c c' : Call} {html html' : String}

theorem ofMembers_details (i : Info) : Value.ofMembers i.details = .object (detailMembers i) := rfl

/-- Everything in the page that is not fixed is escaped; a time is its own escaped text. -/
theorem colorPage_eq (color : String) (i : Info) (now : Moment) :
    colorPage color i now = weave colorFrame ((colorTexts color i now).map escape) := by
  have hprecise : escape now.precise = now.precise := escape_of_figures (Figures.precise now)
  have hhead :
      "<html>\n<head><title>Random Color API</title></head>\n<body style=\"background-color:" =
        "<html>\n<head><title>" ++ ("Random Color API" ++
          "</title></head>\n<body style=\"background-color:") := by decide +kernel
  have hbody : ";\">\n<h1>Color API</h1>\n<p>" =
      ";\">\n<h1>" ++ ("Color API" ++ ("</h1>\n" ++ "<p>")) := by decide
  have hnext : "</p><p>" = "</p>" ++ "<p>" := by decide
  have htime : "</p>\n<p>requested_at: " =
      "</p>" ++ ("\n" ++ ("<p>" ++ "requested_at: ")) := by decide
  have hend : "</p>\n</body>\n</html>\n" = "</p>" ++ "\n</body>\n</html>\n" := by decide
  unfold colorPage layout
  rw [ofMembers_details, ← hprecise]
  simp only [colorTexts, detailMembers, colorFrame, weave, paragraph, List.flatMap_cons,
    List.flatMap_nil, List.map_cons, List.map_nil, List.cons_append, List.nil_append,
    String.join_cons, String.join_nil, String.append_assoc, String.append_empty, hhead, hbody,
    hnext, htime, hend]

namespace State

theorem presents_colorPage (hroute : Route.resolve c.info.method c.info.path = .ok .simpleColor) :
    s.Presents now c (colorPage (s.draw (pickColor s.config.settings s.config.color c.info)).1
      c.info (wallClock now)) := by
  unfold Presents direct
  rw [hroute]
  exact (answerWith_frame _ _ _ _ _).1.1

theorem Presents.unique (h : s.Presents now c html) (h' : s.Presents now c html') :
    html = html' := by
  have hsame := (List.cons.inj (h.symm.trans h')).1
  injection hsame with _ houtcome _
  injection houtcome with hcontent
  injection hcontent

/-- **COLOUR PAGES SHARE THEIR MARKUP.**  What is escaped holds no mark of a tag or a quoted value,
    and an ampersand only in front of an entity, and can be read back.  All of a colour page that
    is not fixed is escaped: the colour, what is known about the request, and the time.  So any
    two such pages have the same tags, whatever the requests and the services are. -/
theorem color_pages_share_markup :
    (∀ text : String, (∀ c ∈ (escape text).toList, c ∉ ['<', '>', '"', '\'']) ∧
      (∀ front back, (escape text).toList = front ++ '&' :: back →
        ∃ x ∈ entities, x.1 <+: '&' :: back) ∧
      unescape (escape text).toList = text.toList) ∧
    (∀ (s : State) (now : Instant) (c : Call),
      Route.resolve c.info.method c.info.path = .ok .simpleColor →
        let color := (s.draw (pickColor s.config.settings s.config.color c.info)).1
        let texts := colorTexts color c.info (wallClock now)
        s.Presents now c (weave colorFrame (texts.map escape))) ∧
    ∀ (s s' : State) (now now' : Instant) (c c' : Call) (html html' : String),
      Route.resolve c.info.method c.info.path = .ok .simpleColor →
      Route.resolve c'.info.method c'.info.path = .ok .simpleColor →
        s.Presents now c html → s'.Presents now' c' html' → markup html = markup html' := by
  have hpage : ∀ (s : State) (now : Instant) (c : Call),
      Route.resolve c.info.method c.info.path = .ok .simpleColor →
        s.Presents now c (weave colorFrame ((colorTexts
          (s.draw (pickColor s.config.settings s.config.color c.info)).1 c.info
            (wallClock now)).map escape)) := by
    intro s now c hroute
    rw [← colorPage_eq]
    exact presents_colorPage hroute
  refine ⟨?_, hpage, ?_⟩
  · intro text
    have hescaped := escaped_escape text
    exact ⟨hescaped.not_mark, fun _ _ => hescaped.ampersand, unescape_escape text⟩
  · intro s s' now now' c c' html html' hroute hroute' h h'
    have hframe : Cursor.text.shelters colorFrame = true := by decide +kernel
    rw [h.unique (hpage s now c hroute), h'.unique (hpage s' now' c' hroute'),
      markup_weave hframe, markup_weave hframe]

/-- A request whose colour closes the attribute and the tag that it stands in changes no tag. -/
theorem color_pages_share_markup_script :
    let c := incoming 0 0 { method := "GET", target := ⟨none, "/simple/color", none⟩ }
    let c' := incoming 1 7 {
      method := "GET", target := ⟨none, "/simple/color", some "color=%22%3E%3Cscript%3E"⟩ }
    pickColor lossyService.config.settings "#000000" c'.info lossyService.words =
        ("\"><script>", lossyService.words) ∧
      ∃ html html', lossyService.Presents 0 c html ∧ lossyService.Presents 7 c' html' ∧
        markup html = markup html' := by
  intro c c'
  obtain ⟨-, hpages, htwo⟩ := color_pages_share_markup
  have hroute : Route.resolve "GET" "/simple/color" = .ok .simpleColor := rfl
  have hcolor : (c'.info.queryParam? "color").filter (fun x => !(trimmed x).isEmpty) =
      some "\"><script>" := by decide +kernel
  have hplain := hpages lossyService 0 c hroute
  have hscript := hpages lossyService 7 c' hroute
  refine ⟨?_, _, _, hplain, hscript, htwo _ _ _ _ _ _ _ _ hroute hroute hplain hscript⟩
  unfold pickColor
  rw [hcolor]
  rfl

end State
end Havoc.Service

import AmpTuner.Amp.Spec

/-!
The spec that is used when none is given.
-/

namespace AmpTuner.Spec

/-- The rule that declares the script of an extension. -/
def script (name : String) (versions : List String) (kind : ExtensionKind) : TagRule where
  tag := "script"
  title := some (name ++ " extension script")
  extension := some { name, versions, kind }

/-- A custom element whose extension has its name. -/
def component (tag : String) : TagRule where
  tag
  requires := [tag]

def bundledTags : List TagRule := [
  script "amp-accordion" ["0.1"] .customElement,
  script "amp-access" ["0.1"] .customElement,
  script "amp-access-laterpay" ["0.1", "0.2"] .customElement,
  script "amp-access-poool" ["0.1"] .customElement,
  script "amp-access-scroll" ["0.1"] .customElement,
  script "amp-ad" ["0.1"] .customElement,
  script "amp-analytics" ["0.1"] .customElement,
  script "amp-audio" ["0.1"] .customElement,
  script "amp-bind" ["0.1"] .customElement,
  script "amp-carousel" ["0.1", "0.2"] .customElement,
  script "amp-consent" ["0.1"] .customElement,
  script "amp-dynamic-css-classes" ["0.1"] .customElement,
  script "amp-experiment" ["0.1", "1.0"] .customElement,
  script "amp-fit-text" ["0.1"] .customElement,
  script "amp-form" ["0.1"] .customElement,
  script "amp-fx-collection" ["0.1"] .customElement,
  script "amp-geo" ["0.1"] .customElement,
  script "amp-iframe" ["0.1"] .customElement,
  script "amp-inputmask" ["0.1"] .customElement,
  script "amp-lightbox" ["0.1"] .customElement,
  script "amp-lightbox-gallery" ["0.1"] .customElement,
  script "amp-list" ["0.1"] .customElement,
  script "amp-mustache" ["0.1", "0.2"] .customTemplate,
  script "amp-sidebar" ["0.1"] .customElement,
  script "amp-social-share" ["0.1"] .customElement,
  script "amp-story" ["1.0"] .customElement,
  script "amp-subscriptions" ["0.1"] .customElement,
  script "amp-subscriptions-google" ["0.1"] .customElement,
  script "amp-video" ["0.1"] .customElement,
  script "amp-youtube" ["0.1"] .customElement,
  { tag := "form", title := some "form [method=get]", requires := ["amp-form"] },
  { tag := "form", title := some "form [method=post]", requires := ["amp-form"] },
  { tag := "amp-img", attributes := [⟨"lightbox", ["amp-lightbox-gallery"]⟩] },
  { tag := "amp-pixel" },
  { tag := "amp-layout" },
  component "amp-accordion",
  component "amp-ad",
  component "amp-analytics",
  component "amp-audio",
  component "amp-carousel",
  component "amp-consent",
  component "amp-experiment",
  component "amp-fit-text",
  component "amp-geo",
  component "amp-iframe",
  component "amp-lightbox",
  component "amp-list",
  component "amp-sidebar",
  component "amp-social-share",
  component "amp-story",
  component "amp-video",
  component "amp-youtube",
  { tag := "amp-state", requires := ["amp-bind"] },
  { tag := "amp-bind-macro", requires := ["amp-bind"] },
  { tag := "amp-carousel", title := some "amp-carousel [lightbox]", requires := ["amp-carousel"],
    attributes := [⟨"lightbox", ["amp-lightbox-gallery"]⟩] }]

def bundledAttributes : List (String × List AttributeRule) := [
  ("$GLOBAL_ATTRS", [⟨"amp-fx", ["amp-fx-collection"]⟩, ⟨"class", []⟩, ⟨"id", []⟩, ⟨"hidden", []⟩, ⟨"style", []⟩])]

def bundled : Spec := ⟨bundledTags, bundledAttributes⟩

end AmpTuner.Spec

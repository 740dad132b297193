import PageHealth.Catalog.Basic

namespace PageHealth.Standard

variable {α : Type} [Scalar α]

def checked (id : String) (severity : Severity) (message recommendation : String)
    (checks : List (Condition α)) : Rule α :=
  ⟨id, severity, message, recommendation, some checks, none⟩

def graded (id : String) (severity : Severity) (message recommendation : String)
    (pass warning : Condition α) : Rule α :=
  ⟨id, severity, message, recommendation, none, some ⟨pass, some warning⟩⟩

def commonSeo : Category α where
  id := "common_seo"
  name := "Common SEO"
  maxPoints := 30
  rules := [
    graded "title_length" .high
      "Page title is missing or not between 30 and 65 characters"
      "Write a unique, descriptive title of 30-65 characters that leads with the main keyword"
      ⟨"title.length", "between", .range (Scalar.ofNat 30) (Scalar.ofNat 65)⟩
      ⟨"title.length", "between", .range (Scalar.ofNat 10) (Scalar.ofNat 80)⟩,
    graded "meta_description" .high
      "Meta description is missing or not between 70 and 160 characters"
      "Add a meta description of 70-160 characters summarising the page"
      ⟨"metaDescription.length", "between", .range (Scalar.ofNat 70) (Scalar.ofNat 160)⟩
      ⟨"metaDescription.length", "between", .range (Scalar.ofNat 50) (Scalar.ofNat 200)⟩,
    checked "single_h1" .medium
      "Page does not have exactly one H1 heading"
      "Use a single H1 that states the topic of the page"
      [⟨"headings.h1Count", "equals", .number (Scalar.ofNat 1)⟩],
    checked "heading_hierarchy" .low
      "Heading levels skip or appear out of order"
      "Nest headings in order (H1, then H2, then H3) without skipping levels"
      [⟨"headings.hierarchyValid", "equals", .bool true⟩],
    graded "image_alt_text" .medium
      "Images are missing alt text"
      "Add descriptive alt attributes to every meaningful image"
      ⟨"images.altCoverage", "gte", .number (Scalar.ofNat 90)⟩
      ⟨"images.altCoverage", "gte", .number (Scalar.ofNat 70)⟩,
    checked "canonical_tag" .medium
      "Canonical link is missing"
      "Declare a rel=\"canonical\" link pointing at the preferred URL"
      [⟨"links.canonicalPresent", "equals", .bool true⟩],
    checked "indexable" .high
      "Page is blocked from indexing"
      "Remove noindex directives and robots.txt rules that block this page"
      [⟨"robots.indexable", "equals", .bool true⟩,
       ⟨"robots.allowedByRobotsTxt", "equals", .bool true⟩],
    checked "sitemap" .low
      "No XML sitemap was found"
      "Publish a sitemap.xml and reference it from robots.txt"
      [⟨"crawl.sitemapFound", "equals", .bool true⟩],
    graded "content_length" .medium
      "Page has thin content"
      "Expand the main content to at least 300 words of useful text"
      ⟨"content.wordCount", "gte", .number (Scalar.ofNat 300)⟩
      ⟨"content.wordCount", "gte", .number (Scalar.ofNat 150)⟩]

def speed : Category α where
  id := "speed"
  name := "Speed & Performance"
  maxPoints := 25
  rules := [
    graded "html_size" .medium
      "HTML document is too large"
      "Minify markup and move inline scripts and styles to external files"
      ⟨"html.sizeKb", "lt", .number (Scalar.ofNat 100)⟩
      ⟨"html.sizeKb", "lt", .number (Scalar.ofNat 250)⟩,
    graded "response_time" .high
      "Server response time is slow"
      "Reduce time to first byte with caching, a CDN or faster backend queries"
      ⟨"performance.ttfbMs", "lt", .number (Scalar.ofNat 600)⟩
      ⟨"performance.ttfbMs", "lt", .number (Scalar.ofNat 1500)⟩,
    graded "request_count" .low
      "Page makes too many HTTP requests"
      "Bundle assets and remove unused third-party resources"
      ⟨"performance.requestCount", "lte", .number (Scalar.ofNat 50)⟩
      ⟨"performance.requestCount", "lte", .number (Scalar.ofNat 100)⟩,
    checked "compression" .medium
      "Text responses are not compressed"
      "Enable gzip or brotli compression on the server"
      [⟨"performance.compressionEnabled", "equals", .bool true⟩],
    graded "render_blocking" .low
      "Render-blocking resources delay first paint"
      "Defer non-critical scripts and inline critical CSS"
      ⟨"performance.renderBlockingResources", "lte", .number (Scalar.ofNat 2)⟩
      ⟨"performance.renderBlockingResources", "lte", .number (Scalar.ofNat 5)⟩]

def security : Category α where
  id := "security"
  name := "Security"
  maxPoints := 20
  rules := [
    checked "https" .high
      "Page is not served over HTTPS"
      "Install a TLS certificate and redirect all HTTP traffic to HTTPS"
      [⟨"security.https", "equals", .bool true⟩],
    checked "mixed_content" .medium
      "Page loads insecure resources over HTTP"
      "Serve every script, stylesheet and image over HTTPS"
      [⟨"security.mixedContentCount", "equals", .number (Scalar.ofNat 0)⟩],
    checked "hsts" .low
      "Strict-Transport-Security header is missing"
      "Send an HSTS header with a max-age of at least six months"
      [⟨"security.hstsEnabled", "equals", .bool true⟩],
    checked "security_headers" .low
      "Recommended security headers are missing"
      "Send X-Content-Type-Options: nosniff and an X-Frame-Options header"
      [⟨"security.contentTypeOptions", "equals", .bool true⟩,
       ⟨"security.frameOptions", "equals", .bool true⟩]]

def mobile : Category α where
  id := "mobile"
  name := "Mobile Usability"
  maxPoints := 15
  rules := [
    checked "viewport" .high
      "Viewport meta tag is missing"
      "Add <meta name=\"viewport\" content=\"width=device-width, initial-scale=1\">"
      [⟨"mobile.viewportPresent", "equals", .bool true⟩],
    graded "legible_fonts" .medium
      "Text is too small to read on mobile"
      "Use a base font size of at least 16px"
      ⟨"mobile.legibleFontRatio", "gte", .number (Scalar.ofNat 95)⟩
      ⟨"mobile.legibleFontRatio", "gte", .number (Scalar.ofNat 80)⟩,
    graded "tap_targets" .low
      "Tap targets are too small or too close together"
      "Make buttons and links at least 48px and space them apart"
      ⟨"mobile.tapTargetIssues", "equals", .number (Scalar.ofNat 0)⟩
      ⟨"mobile.tapTargetIssues", "lte", .number (Scalar.ofNat 3)⟩]

def advanced : Category α where
  id := "advanced"
  name := "Advanced SEO"
  maxPoints := 10
  rules := [
    checked "structured_data" .medium
      "No structured data was found"
      "Describe the page with schema.org JSON-LD"
      [⟨"advanced.structuredDataPresent", "equals", .bool true⟩],
    checked "open_graph" .low
      "Open Graph tags are missing"
      "Add og:title, og:description and og:image for social sharing"
      [⟨"social.openGraphPresent", "equals", .bool true⟩],
    checked "lang_attribute" .low
      "The html element has no lang attribute"
      "Declare the page language, e.g. <html lang=\"en\">"
      [⟨"advanced.langPresent", "equals", .bool true⟩],
    graded "url_length" .low
      "URL is long"
      "Keep URLs short, readable and free of tracking parameters"
      ⟨"url.length", "lte", .number (Scalar.ofNat 75)⟩
      ⟨"url.length", "lte", .number (Scalar.ofNat 115)⟩,
    checked "keyword_density" .low
      "Main keyword density looks unnatural"
      "Write for readers; keep the main keyword between 0.5% and 3% of the text"
      [⟨"content.keywordDensity", "between", .range (Scalar.ofNat 1 / Scalar.ofNat 2) (Scalar.ofNat 3)⟩]]

end PageHealth.Standard

namespace PageHealth

def Catalog.standard {α : Type} [Scalar α] : Catalog α where
  version := "1.0.0"
  engine := "seo-health"
  scoring := Scoring.standard
  categories :=
    [Standard.commonSeo, Standard.speed, Standard.security, Standard.mobile, Standard.advanced]

end PageHealth

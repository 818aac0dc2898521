import Articler.Listing
import Articler.Links
import Articler.SearchIndex
import Articler.ReadPaths
import Articler.Filters
import Articler.Search
import Articler.Ranking
import Articler.Titles
import Articler.Authors
import Articler.FileNames
import Articler.SharedIndex
import Articler.Counters
import Articler.Logins
import Articler.Tenancy
import Articler.Tagging
import Articler.ReadBack
import Articler.Consistency
import Articler.Provenance
import Articler.UpdateQuery
import Articler.Detail
import Articler.PageBounds
import Articler.Collection
import Articler.Setup
import Articler.Failures
import Articler.Atomicity
import Articler.RefreshGrant
import Articler.RotationSafety
import Articler.Revocation
import Articler.Migrations
import Articler.TagMigration
import Articler.Stamping
import Articler.Sync
import Articler.Authority
import Articler.Privacy
import Articler.Deletions
import Articler.Availability
import Articler.Service
import Articler.Interleaving
import Articler.Edits
import Articler.Continuity
import Articler.Pipeline
import Articler.Reload

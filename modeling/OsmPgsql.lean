import OsmPgsql.Basic
import OsmPgsql.Emit
import OsmPgsql.Driver
import OsmPgsql.Pass
import OsmPgsql.Geometry
import OsmPgsql.Relation
import OsmPgsql.Modify
import OsmPgsql.Style
import OsmPgsql.Supersede
import OsmPgsql.Arrays
import OsmPgsql.Replay
import OsmPgsql.StyleRoundTrip
import OsmPgsql.Independence
import OsmPgsql.Finalise
import OsmPgsql.Parallel
import OsmPgsql.Store

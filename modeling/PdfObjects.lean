import PdfObjects.Filter
import PdfObjects.Main
import PdfObjects.Proofs.RoundTrip
import PdfObjects.Proofs.Stalling
import PdfObjects.Proofs.Bounds
import PdfObjects.Proofs.Soundness
import PdfObjects.Proofs.Trailers
import PdfObjects.Proofs.Listing
import PdfObjects.Proofs.Lookahead
import PdfObjects.Proofs.Sticky
import PdfObjects.Proofs.Recovery
import PdfObjects.Proofs.Endings
import PdfObjects.Proofs.StreamEnds
import PdfObjects.Proofs.Neighbours
import PdfObjects.Proofs.DictionaryEnds
import PdfObjects.Proofs.Occurrences
import PdfObjects.Proofs.Rewinding
import PdfObjects.Proofs.Strictness
import PdfObjects.Proofs.ArrayEnds
import PdfObjects.Proofs.NearestWord
import PdfObjects.Proofs.Tokens
import PdfObjects.Proofs.Recording
import PdfObjects.Proofs.Spellings
import PdfObjects.Proofs.Requests
import PdfObjects.Proofs.Sources
import PdfObjects.Proofs.DirectNumbers
import PdfObjects.Proofs.Sightings
import PdfObjects.Proofs.Digits
import PdfObjects.Proofs.WrittenNames
